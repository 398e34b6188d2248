import ShellGrammar.Text.Quoted

/-!
Plain values: what a setting can hold, and what is not a syntax tree.
-/
namespace ShellGrammar

inductive Value
  | absent
  | flag (b : Bool)
  | number (n : Int)
  | text (s : String)
  deriving DecidableEq, Repr

def Value.description : Value → String
  | absent => "None"
  | flag true => "True"
  | flag false => "False"
  | number n => toString n
  | text s => Text.quoted s

end ShellGrammar
