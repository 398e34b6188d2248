import ShellGrammar.Program
import Std.Time.Format

/-!
The command line program: reads arguments, environment variables and standard input, and prints
what `Program` says.
-/
namespace ShellGrammar.Terminal

def stop (message : String) : IO Nat := throw (IO.userError message)

/-- What is raised is raised here too, when all has been printed. -/
def emit (o : Output) : IO Unit := do
  let out ← IO.getStdout
  out.putStr o.out
  out.flush
  (← IO.getStderr).putStr o.err
  if let some f := o.raised then discard (stop f.message)

/-- Appends lines to the log file, creating it even if there are none. -/
def record (path : Option String) (lines : List String) : IO Unit := do
  if let some path := path then
    IO.FS.withFile path .append fun file => do
      for line in lines do
        let now ← Std.Time.PlainDateTime.now
        let time := now.format "uuuu-MM-dd HH:mm:ss,SSS"
        file.putStrLn s!"{time} - {Program.logName}: {line}"

def converse (c : Console) (logFile : Option String) : IO Nat := do
  let input ← IO.getStdin
  let mut session := Console.Session.start c
  repeat
    emit { Output.empty with out := session.prompt }
    let line ← input.getLine
    if line.isEmpty then break
    let text := if line.endsWith "\n" then line.dropEnd 1 else line.toSlice
    let (next, output) := session.step (.line text.copy)
    emit output
    record logFile output.log
    session := next
  return session.console.exitCode

def present (report : Report) : IO Nat := do
  emit report.toOutput
  return report.status

def carryOut (p : Program.Plan) : IO Nat := do
  record p.logFile []
  match p.action, p.limit with
  | .console layout, .ok limit =>
    match Console.new limit layout with
    | .ok c => converse c p.logFile
    | .error e => stop e.message
  | _, _ =>
    match p.run "" with
    | .ok report =>
      record p.logFile report.log
      present report
    | .error e => stop e.message

def statusOf : Program.Ending → Nat
  | .exit status => status
  | .finished status => status

end ShellGrammar.Terminal

open ShellGrammar in
def main (args : List String) : IO UInt32 := do
  let depth ← IO.getEnv Program.maxDepthVariable
  let log ← IO.getEnv Program.logFileVariable
  let envVars (name : String) : Option String :=
    if name = Program.maxDepthVariable then depth
    else if name = Program.logFileVariable then log
    else none
  match Program.prepare args envVars with
  | .ok plan => return (← Terminal.carryOut plan).toUInt32
  | .error outcome =>
    Terminal.emit outcome.output
    return (Terminal.statusOf outcome.ending).toUInt32
