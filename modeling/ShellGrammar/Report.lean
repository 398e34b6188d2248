import ShellGrammar.Cursor
import ShellGrammar.Tree.Outline

/-!
What is printed for a command line: its tree or what is wrong with it, or its tokens. A failure that
does not come from the command line is kept apart from these; it is not printed but raised.
-/
namespace ShellGrammar

/-- Text for the two output streams and lines for the log. A failure that nobody reports is raised
and ends what is being done. -/
structure Output where
  out : String
  err : String
  log : List String
  raised : Option Failure
  deriving DecidableEq, Repr

def Output.empty : Output := ⟨"", "", [], none⟩

/-- What is printed, and the exit status. -/
structure Report extends Output where
  status : Nat
  deriving DecidableEq, Repr

namespace Report

def shown (text : String) : Report := { Output.empty with out := text ++ "\n", status := 0 }

def failed (message : String) : Report :=
  { Output.empty with err := s!"Error: {message}\n", status := 1 }

def raising (f : Failure) : Report := { Output.empty with raised := some f, status := 1 }

/-- The tree that was read from `count` tokens, or what is wrong with them. Only syntax errors are
reported. -/
def ofResult (count : Nat) (result : Except Failure Line) (layout : Layout) : Report :=
  let report :=
    match result with
    | .ok line => shown (line.node.render layout)
    | .error (.rejected e) => failed e.message
    | .error f => raising f
  { report with log := (Line.record count result).toList }

def ofText (text : String) (maxDepth : Int) (layout : Layout) : Report :=
  ofResult (tokenize text).length (Line.parse text maxDepth) layout

def padLeft (width : Nat) (s : String) : String :=
  String.ofList (List.replicate (width - s.length) ' ') ++ s

def padRight (width : Nat) (s : String) : String :=
  s ++ String.ofList (List.replicate (width - s.length) ' ')

def tokenLine (t : Token) : String :=
  s!"{padLeft 4 (toString t.position)}  {padRight 12 t.kind.name} {Text.quoted t.text}\n"

def tokens (text : String) : Report :=
  { Output.empty with out := String.join ((tokenize text).map tokenLine), status := 0 }

end Report
end ShellGrammar
