import ShellGrammar.Reader

/-!
The grammar of command lines, a reader for each of its levels:

    line     := andOr
    andOr    := pipeline (("&&" | "||") pipeline)*
    pipeline := stage ("|" stage)*
    stage    := subshell | command
    subshell := "(" andOr ")"
    command  := (word | redirection)+
    redirection := ("<" | ">" | ">>" | "<<") word

From the stage upwards a reader depends on the number of subshells that may still be nested. Each
of them nests the calls of the readers deeper; the room that an interpreter has for nested calls is
left out, and no reader stops for want of it.
-/
namespace ShellGrammar

/-- A word or a redirection, as they alternate in a command. -/
inductive Command.Part
  | word (w : Word)
  | redirection (r : Redirection)
  deriving DecidableEq, Repr

namespace Command

def Part.word? : Part → Option Word
  | word w => some w
  | redirection _ => none

def Part.redirection? : Part → Option Redirection
  | word _ => none
  | redirection r => some r

/-- Words and redirections keep their own order. -/
def ofParts (parts : List Part) : Except BuildError Command := do
  let words ←
    match parts.filterMap Part.word? with
    | [] => pure none
    | words => some <$> SimpleCommand.build words
  build words (parts.filterMap Part.redirection?)

end Command

namespace Reader

/-- The kinds that a part of a command begins with. -/
def partKinds : List Token.Kind := .word :: Token.Kind.redirections

/-- The kinds that a stage begins with. -/
def stageKinds : List Token.Kind := .word :: .lparen :: Token.Kind.redirections

def redirectionAfter (op : Token) : Reader Redirection := do
  let target ← expect [.word]
  lift (Redirection.build op.text (some (.word ⟨target.text⟩)))

def redirection : Reader Redirection := do
  let op ← expect Token.Kind.redirections
  redirectionAfter op

def part (t : Token) : Reader Command.Part :=
  if t.kind = .word then pure (.word ⟨t.text⟩) else do return .redirection (← redirectionAfter t)

def command : Reader Command := do
  match ← many partKinds part with
  | [] => stop (.fault .noCommand)
  | parts => lift (Command.ofParts parts)

def pipelineOf (stage : Reader Stage) : Reader Pipeline := do
  let first ← stage
  let others ← many [.pipe] fun _ => stage
  lift (Pipeline.build (first :: others))

/-- The operators are checked when all operands have been read. -/
def andOrOf (pipeline : Reader Pipeline) : Reader AndOr := do
  let first ← pipeline
  let others ← many Token.Kind.logical fun op => do return (op.text, ← pipeline)
  lift (AndOr.build (first :: others.map Prod.snd) (others.map Prod.fst))

def stageOf (subshell : Reader AndOr) : Reader Stage := do
  if ← upcoming [.lparen] then return .subshell (← subshell)
  else return .command (← command)

/-- What stands behind the parenthesis that opens a subshell, with the one that closes it. -/
def group (andOr : Reader AndOr) : Reader AndOr := do
  if ← upcoming [.rparen] then stop (.fault .emptyGroup)
  let body ← andOr.inside
  let _ ← expect [.rparen]
  return body

/-- The body of a subshell, with `allowance` subshells allowed at this place. -/
def subshell : (allowance : Nat) → Reader AndOr
  | 0 => stop (.fault .nestingTooDeep)
  | allowance + 1 => do
    let _ ← expect [.lparen]
    group (andOrOf (pipelineOf (stageOf (subshell allowance))))

def stage (allowance : Nat) : Reader Stage := stageOf (subshell allowance)

def pipeline (allowance : Nat) : Reader Pipeline := pipelineOf (stage allowance)

def andOr (allowance : Nat) : Reader AndOr := andOrOf (pipeline allowance)

/-- Nothing may follow the and-or list. -/
def line (allowance : Nat) : Reader Line where
  read
    | [] => .ok (.empty, [])
    | ts =>
      match (andOr allowance).read ts with
      | .ok (body, []) => .ok (.sequence body, [])
      | .ok (_, rest) => .error ⟨.fault .trailingInput, rest, 0⟩
      | .error stop => .error stop
  rest_le {ts a rest} h := by
    split at h
    · cases h
      exact Nat.le_refl _
    · split at h
      · cases h
        exact Nat.zero_le _
      · cases h
      · cases h

end Reader
end ShellGrammar
