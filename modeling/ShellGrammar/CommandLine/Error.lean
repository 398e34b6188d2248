import ShellGrammar.Text.Quoted

/-!
What can be wrong with the arguments of the program. An option is named by all its spellings.
-/
namespace ShellGrammar.CommandLine

inductive UsageError
  | ambiguous (argument : String) (candidates : List String)
  | valueMissing (option : String)
  | valueIgnored (option : String) (value : String)
  | invalidValue (option : String) (reason : String)
  | invalidChoice (option : String) (value : String) (choices : List String)
  | required (operand : String)
  | unrecognized (arguments : List String)
  deriving DecidableEq, Repr

def UsageError.message : UsageError → String
  | ambiguous argument candidates =>
    s!"ambiguous option: {argument} could match " ++ ", ".intercalate candidates
  | valueMissing option => s!"argument {option}: expected one argument"
  | valueIgnored option value =>
    s!"argument {option}: ignored explicit argument {Text.quoted value}"
  | invalidValue option reason => s!"argument {option}: {reason}"
  | invalidChoice option value choices =>
    s!"argument {option}: invalid choice: {Text.quoted value} (choose from " ++
      ", ".intercalate (choices.map Text.quoted) ++ ")"
  | required operand => s!"the following arguments are required: {operand}"
  | unrecognized arguments => "unrecognized arguments: " ++ " ".intercalate arguments

end ShellGrammar.CommandLine
