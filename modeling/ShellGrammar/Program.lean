import ShellGrammar.CommandLine.Invocation
import ShellGrammar.Console
import ShellGrammar.Settings

/-!
The program behind the command line: from its arguments and the environment variables to what it
prints and its exit status.
-/
namespace ShellGrammar.Program
open CommandLine

def version : String := "0.1.0"

def maxDepthVariable : String := "CMDTREE_MAX_DEPTH"

def logFileVariable : String := "CMDTREE_LOG_FILE"

def logName : String := "cmdtree.shell.logging"

/-- An action with its settings; without a log file nothing is recorded. -/
structure Plan where
  action : Action
  maxDepth : Option Int
  logFile : Option String
  deriving DecidableEq, Repr

inductive Ending
  /-- The arguments ended the program before it began. -/
  | exit (status : Nat)
  | finished (status : Nat)
  deriving DecidableEq, Repr

structure Outcome where
  output : Output
  ending : Ending
  deriving DecidableEq, Repr

def Outcome.ofReport (r : Report) : Outcome := ⟨r.toOutput, .finished r.status⟩

def Outcome.ofExit : Exit → Outcome
  | .help page => ⟨{ Output.empty with out := page.helpText }, .exit 0⟩
  | .misuse page e =>
    ⟨{ Output.empty with err := s!"{page.usage}\n{page.title}: error: {e.message}\n" }, .exit 2⟩

/-- The limit that a setting stands for, if it is a number. -/
def depthOf : Value → Option Int
  | .number n => some n
  | _ => none

/-- An empty path is no path. -/
def pathOf : Value → Option String
  | .text path => if path.isEmpty then none else some path
  | _ => none

/-- A void limit is kept as it is; only a missing one is looked for elsewhere. -/
def loadDepth (s : Settings) (given : Option GivenDepth) (envVars : String → Option String) :
    Except Settings.LoadError (Value × Settings) :=
  let load (v : Value) :=
    s.load 0 "max_depth" v maxDepthVariable envVars (.number Cursor.defaultMaxDepth) .positive
  match given with
  | some .void => .ok (.absent, s.put 0 "max_depth" .absent)
  | some (.limit n) => load (.number n)
  | none => load .absent

def plan (i : Invocation) (envVars : String → Option String) : Except Report Plan :=
  if i.version then .error (Report.shown s!"cmdtree {version}")
  else
    match i.action with
    | none =>
      .error { Output.empty with out := Page.helpText .program, status := 1 }
    | some action =>
      let s := Settings.empty.create none
      match loadDepth s i.maxDepth envVars with
      | .error e => .error (Report.failed e.message)
      | .ok (depth, s) =>
        match s.load 0 "log_file" (i.logFile.elim .absent .text) logFileVariable envVars .absent
            .verbatim with
        | .error e => .error (Report.failed e.message)
        | .ok (path, _) => .ok ⟨action, depthOf depth, pathOf path⟩

/-- The lines of a text; the last one needs no line feed unless it is empty. -/
def linesOf (text : String) : List String :=
  let lines := text.splitOn "\n"
  if lines.getLast? = some "" then lines.dropLast else lines

/-- What a console prints, prompts included. -/
def transcript (exchanges : List Console.Exchange) : Output where
  out := String.join (exchanges.map fun e => e.printed.out ++ e.prompt)
  err := String.join (exchanges.map fun e => e.printed.err)
  log := exchanges.flatMap fun e => e.printed.log
  raised := exchanges.findSome? fun e => e.printed.raised

/-- Trees cannot be read under a void limit. -/
inductive Fault
  | voidLimit
  deriving DecidableEq, Repr

def Fault.message : Fault → String
  | voidLimit => "'<' not supported between instances of 'list' and 'int'"

def Plan.limit (p : Plan) : Except Fault Int := p.maxDepth.elim (.error .voidLimit) .ok

def Plan.run (p : Plan) (input : String) : Except Fault Report :=
  match p.action with
  | .parse layout words => do
    return Report.ofText (" ".intercalate words) (← p.limit) layout
  | .tokens words => .ok (Report.tokens (" ".intercalate words))
  | .console layout => do
    match Console.new (← p.limit) layout with
    | .error e => return Report.raising e
    | .ok c =>
      let (exchanges, c) := c.loop ((linesOf input).map .line)
      let output := transcript exchanges
      return { output with
        status := output.raised.elim c.exitCode fun f => (Report.raising f).status }

/-- The plan, or what is printed instead. -/
def prepare (args : List String) (envVars : String → Option String) : Except Outcome Plan :=
  match Invocation.read args with
  | .error e => .error (.ofExit e)
  | .ok i => (plan i envVars).mapError .ofReport

end ShellGrammar.Program
