import ShellGrammar.Text.Blank
import ShellGrammar.Tree.Node

/-!
Writing a syntax tree as a command line. Words are quoted where the scanner needs it, tokens are
set apart by single spaces except next to parentheses, and the redirections of a command follow
its words. A tree of any depth is written: the calls for the subshells in each other are nested, but
an interpreter's limit on nested calls is left out.
-/
namespace ShellGrammar
namespace Quoting

/-- A character that a word outside quotes cannot hold. -/
def isSpecial (c : Char) : Bool :=
  Text.isBlank c || ['(', ')', '&', '|', '<', '>', '\'', '"', '\\'].contains c

def escapeChar (c : Char) : List Char :=
  if c = '\\' ∨ c = '"' then ['\\', c] else [c]

/-- Bare if possible, else in single quotes if possible, else in double quotes. -/
def quote (cs : List Char) : List Char :=
  if !cs.isEmpty && !cs.any isSpecial then cs
  else if '\'' ∈ cs then '"' :: cs.flatMap escapeChar ++ ['"']
  else '\'' :: cs ++ ['\'']

end Quoting

/-- The text as the scanner reads it back: one word. -/
def quoteWord (text : String) : String := String.ofList (Quoting.quote text.toList)

@[simp] theorem toList_quoteWord (text : String) :
    (quoteWord text).toList = Quoting.quote text.toList :=
  String.toList_ofList

def Word.write (w : Word) : String := quoteWord w.text

def Redirection.write (r : Redirection) : String := r.op.text ++ " " ++ r.target.write

def SimpleCommand.write (s : SimpleCommand) : String := " ".intercalate (s.words.map Word.write)

def Command.write (c : Command) : String :=
  " ".intercalate
    ((c.simple?.map SimpleCommand.write).toList ++ c.redirections.map Redirection.write)

mutual

def Stage.write : Stage → String
  | .command c => c.write
  | .subshell body => "(" ++ body.write ++ ")"

def Pipeline.write : Pipeline → String
  | .single s => s.write
  | .pipe s rest => s.write ++ " | " ++ rest.write

def AndOr.write : AndOr → String
  | .single p => p.write
  | .chain p op rest => p.write ++ " " ++ op.text ++ " " ++ rest.write

end

def Node.write : Node → String
  | .empty => ""
  | .sequence body => body.write
  | .andOr a => a.write
  | .pipeline p => p.write
  | .command c => c.write
  | .simpleCommand s => s.write
  | .redirection r => r.write
  | .subshell body => "(" ++ body.write ++ ")"
  | .word w => w.write

end ShellGrammar
