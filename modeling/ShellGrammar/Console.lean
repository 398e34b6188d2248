import ShellGrammar.Report

/-!
The console reads command lines and shows the tree of each. A line that leaves a quote open or ends
in a backslash is continued on the next one; an interrupt drops what has been entered of a command.
-/
namespace ShellGrammar

/-- A console keeps one cursor and one scanner for all that is entered. -/
structure Console where
  cursor : Cursor
  layout : Layout
  scanner : Scanner
  exitCode : Nat
  quit : Bool
  limit_pos : 0 < cursor.maxDepth
  deriving DecidableEq, Repr

namespace Console

def prompt : String := "cmdtree> "

def continuationPrompt : String := "...> "

def new (maxDepth : Int) (layout : Layout) : Except Failure Console :=
  match h : Cursor.new [] maxDepth none with
  | .ok cursor => .ok ⟨cursor, layout, .new, 0, false, Cursor.maxDepth_pos_of_new h⟩
  | .error e => .error e

def maxDepth (c : Console) : Nat := c.cursor.maxDepth

def reset (c : Console) : Console :=
  { c with cursor := c.cursor.resetState, scanner := c.scanner.reset }

/-- Shows what the cursor makes of the tokens; the cursor is left without any. If a failure is
raised, there is no exit code. -/
def display (c : Console) (tokens : List Token) (endPosition : Int) : Console × Output :=
  let cursor := { c.cursor with tokens, endPosition := some endPosition }
  let parsed := cursor.parse
  let report := Report.ofResult tokens.length parsed.1 c.layout
  ({ c with
      cursor := parsed.2.resetState
      exitCode := if report.raised.isSome then c.exitCode else report.status
      limit_pos := cursor.resetState_parse ▸ c.limit_pos }, report.toOutput)

/-- Shows a command line at once; what is being entered meanwhile is left alone. -/
def execute (c : Console) (text : String) : Console × Output :=
  c.display (Scanner.new.scan text.toList).tokens text.length

inductive Event
  | line (text : String)
  | interrupt
  deriving DecidableEq, Repr

/-- A console at its prompt, with the tokens already completed of an unfinished command. -/
structure Session where
  console : Console
  buffer : List Token
  continued : Bool
  deriving DecidableEq, Repr

namespace Session

def start (c : Console) : Session := ⟨c, [], false⟩

def prompt (s : Session) : String := if s.continued then continuationPrompt else Console.prompt

def step (s : Session) : Event → Session × Output
  | .interrupt => (start s.console.reset, { Output.empty with out := "\n" })
  | .line text =>
    let read := s.console.scanner.feed text.toList
    let buffer := s.buffer ++ read.tokens
    if read.scanner.closed then
      let last := read.scanner.finish
      let c := { s.console with scanner := last.scanner }
      let (c, output) := c.display (buffer ++ last.tokens) last.scanner.offset
      (if output.raised.isSome then { s with console := c } else start c.reset, output)
    else
      let more := read.scanner.feed ['\n']
      (⟨{ s.console with scanner := more.scanner }, buffer ++ more.tokens, true⟩, .empty)

end Session

/-- A prompt and what was printed since the one before it; there is no prompt any more when a
failure has been raised. -/
structure Exchange where
  prompt : String
  printed : Output
  deriving DecidableEq, Repr

/-- Takes events until there are no more or a failure is raised; the last prompt is the one that
gets no answer. -/
def Session.run (s : Session) (printed : Output) : List Event → List Exchange × Console
  | [] => ([⟨s.prompt, printed⟩], s.console)
  | e :: es =>
    let (next, output) := s.step e
    if output.raised.isSome then ([⟨s.prompt, printed⟩, ⟨"", output⟩], next.console)
    else
      let (exchanges, c) := next.run output es
      (⟨s.prompt, printed⟩ :: exchanges, c)

/-- A console told to quit asks for nothing. -/
def loop (c : Console) (events : List Event) : List Exchange × Console :=
  if c.quit then ([], c) else (Session.start c).run .empty events

end Console
end ShellGrammar
