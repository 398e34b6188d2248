import ShellGrammar.CommandLine.Page
import ShellGrammar.Text.Integer

/-!
What the arguments of the program ask for. Global options come first, then the action with its own
options and operands; everything is taken in the order in which it stands, so that the first fault
or call for help decides, and only then arguments that nothing claimed are refused.
-/
namespace ShellGrammar.CommandLine

inductive Action
  | parse (layout : Layout) (words : List String)
  | tokens (words : List String)
  | console (layout : Layout)
  deriving DecidableEq, Repr

/-- A limit of nesting as it is given; void, it is neither a number nor missing. -/
inductive GivenDepth
  | limit (n : Int)
  | void
  deriving DecidableEq, Repr

structure Invocation where
  version : Bool
  maxDepth : Option GivenDepth
  logFile : Option String
  action : Option Action
  deriving DecidableEq, Repr

/-- The reasons for the program to end before it does anything. -/
inductive Exit
  | help (page : Page)
  | misuse (page : Page) (e : UsageError)
  deriving DecidableEq, Repr

/-- The global options read so far, and the arguments that nothing claimed. -/
structure Globals where
  version : Bool
  maxDepth : Option GivenDepth
  logFile : Option String
  extras : List String
  deriving DecidableEq, Repr

/-- The words of an action are contiguous: once an option follows them they are complete. -/
structure Locals where
  layout : Layout
  words : List String
  complete : Bool
  extras : List String
  deriving DecidableEq, Repr

def Globals.apply (g : Globals) (u : Use) : Except Exit Globals :=
  match u.option.meaning, u.value with
  | .help, _ => .error (.help .program)
  | .version, _ => .ok { g with version := true }
  | .maxDepth, some value =>
    if value = voidValue then .ok { g with maxDepth := some .void }
    else
      match Text.readPositive value with
      | .ok n => .ok { g with maxDepth := some (.limit n) }
      | .error e => .error (.misuse .program (.invalidValue u.option.display e.message))
  | .logFile, some value =>
    .ok { g with logFile := some (if value = voidValue then "" else value) }
  | _, _ => .ok g

/-- Reads up to the first operand; the action and its arguments are what is left. -/
def Globals.read (g : Globals) : List Segment → Except Exit (Globals × List String)
  | [] => .ok (g, [])
  | .operand text following :: _ => .ok (g, text :: following)
  | .separator [] :: _ => .ok ({ g with extras := g.extras ++ ["--"] }, [])
  | .separator following :: _ => .ok (g, "--" :: following)
  | .misuse e :: _ => .error (.misuse .program e)
  | .stray text :: rest => { g with extras := g.extras ++ [text] }.read rest
  | .uses us :: rest => do
    let g ← us.foldlM Globals.apply g
    g.read rest

def Locals.apply (page : Page) (l : Locals) (u : Use) : Except Exit Locals :=
  match u.option.meaning, u.value with
  | .help, _ => .error (.help page)
  | .format, some value =>
    if value = voidValue then .ok { l with layout := .listing }
    else
      match Layout.ofName? value with
      | some layout => .ok { l with layout }
      | none =>
        .error (.misuse page (.invalidChoice u.option.display value (Layout.all.map Layout.name)))
  | _, _ => .ok l

def Locals.closeWords (l : Locals) : Locals := { l with complete := l.complete || !l.words.isEmpty }

def Locals.addExtras (l : Locals) (extras : List String) : Locals :=
  { l with extras := l.extras ++ extras }

def Locals.read (page : Page) (l : Locals) : List Segment → Except Exit Locals
  | [] => .ok l
  | .operand text _ :: rest =>
    if l.complete then (l.addExtras [text]).read page rest
    else { l with words := l.words ++ [text] }.read page rest
  | .separator following :: rest =>
    if l.complete || (l.words.isEmpty && following.isEmpty) then (l.addExtras ["--"]).read page rest
    else l.read page rest
  | .misuse e :: _ => .error (.misuse page e)
  | .stray text :: rest => (l.closeWords.addExtras [text]).read page rest
  | .uses us :: rest => do
    let l ← us.foldlM (Locals.apply page) l.closeWords
    l.read page rest

def segments (page : Page) (args : List String) : Except Exit (List Segment) :=
  match Item.readAll page.options args with
  | .ok items => .ok (Segment.ofItems page.options items)
  | .error e => .error (.misuse page e)

def Action.ofPage : Page → Locals → Option Action
  | .program, _ => none
  | .parse, l => some (.parse l.layout l.words)
  | .tokens, l => some (.tokens l.words)
  | .console, l => some (.console l.layout)

/-- The action, with the arguments that it does not know. -/
def Action.read (name : String) (args : List String) : Except Exit (Option Action × List String) :=
  match Page.ofName? name with
  | none =>
    .error (.misuse .program (.invalidChoice "<action>" name (Page.actions.flatMap Page.names)))
  | some page => do
    let l ← Locals.read page ⟨.listing, [], !page.takesWords, []⟩ (← segments page args)
    if page.takesWords && l.words.isEmpty then .error (.misuse page (.required "command"))
    else return (Action.ofPage page l, l.extras)

def Invocation.read (args : List String) : Except Exit Invocation := do
  let (g, rest) ← Globals.read ⟨false, none, none, []⟩ (← segments .program args)
  let (action, extras) ←
    match rest with
    | [] => .ok (none, [])
    | name :: args => Action.read name args
  match g.extras ++ extras with
  | [] => return ⟨g.version, g.maxDepth, g.logFile, action⟩
  | unclaimed => .error (.misuse .program (.unrecognized unclaimed))

end ShellGrammar.CommandLine
