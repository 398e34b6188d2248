import ShellGrammar.Reader.Line
import ShellGrammar.Token.Scanner

/-!
A cursor moves through a list of tokens as readers are applied to it. It stays where a failure
happened, inside the subshells that were open there, and the next reader goes on from that place.

The depth to which an interpreter lets calls be nested is not part of a cursor: only the limit on
open subshells ends a reading for its depth, however high that limit is.
-/
namespace ShellGrammar

inductive Failure
  | rejected (e : SyntaxError)
  | build (e : BuildError)
  /-- There is no token to give, or none that could tell where the input ends. -/
  | outOfTokens
  | nestingLimit
  deriving DecidableEq, Repr

def Failure.message : Failure → String
  | rejected e => e.message
  | build e => e.message
  | outOfTokens => "list index out of range"
  | nestingLimit => "max_depth must be a positive integer"

/-- `endPosition` is the length of the text that the tokens come from, if it is known. -/
structure Cursor where
  tokens : List Token
  maxDepth : Nat
  endPosition : Option Int
  index : Nat
  depth : Nat
  deriving DecidableEq, Repr

namespace Cursor

def defaultMaxDepth : Nat := 128

def new (tokens : List Token) (maxDepth : Int) (endPosition : Option Int) :
    Except Failure Cursor :=
  if maxDepth < 1 then .error .nestingLimit
  else .ok ⟨tokens, maxDepth.toNat, endPosition, 0, 0⟩

theorem maxDepth_pos_of_new {tokens : List Token} {maxDepth : Int} {endPosition : Option Int}
    {c : Cursor} (h : new tokens maxDepth endPosition = .ok c) : 0 < c.maxDepth := by
  rw [new] at h
  split at h
  · cases h
  · cases h
    simp only
    omega

def resetState (c : Cursor) : Cursor :=
  { c with tokens := [], endPosition := none, index := 0, depth := 0 }

def rest (c : Cursor) : List Token := c.tokens.drop c.index

def allowance (c : Cursor) : Nat := c.maxDepth - c.depth

def peek (c : Cursor) : Option Token := c.rest.head?

def accept (c : Cursor) (kinds : List Token.Kind) : Bool := Reader.nextIs kinds c.rest

/-- Where the next token begins, or where the input ends as far as that can be told. -/
def position (c : Cursor) : Except Failure Int :=
  match c.peek, c.endPosition, c.tokens.getLast? with
  | some t, _, _ => .ok t.position
  | none, some p, _ => .ok p
  | none, none, some last => .ok (last.position + last.text.length)
  | none, none, none => .error .outOfTokens

def advance (c : Cursor) : Except Failure Token × Cursor :=
  match c.peek with
  | some t => (.ok t, { c with index := c.index + 1 })
  | none => (.error .outOfTokens, c)

/-- The kind of error, the kinds expected and the note that a fault at the cursor is reported
with. -/
def report (c : Cursor) : Reader.Fault → SyntaxError.Kind × List Token.Kind × String
  | .unmet kinds =>
    if c.peek.isSome then (.unexpectedToken, kinds, "unexpected token")
    else (.unexpectedEnd, kinds, "unexpected end of input")
  | .noCommand =>
    (if c.peek.isSome then .unexpectedToken else .unexpectedEnd, Reader.stageKinds,
      "expected a command")
  | .emptyGroup => (.emptyGroup, Reader.stageKinds, "empty subshell")
  | .nestingTooDeep => (.nestingTooDeep c.maxDepth, [.word], "subshells are nested too deep")
  | .trailingInput => (.trailingInput, [], "unexpected trailing input")

def failure (c : Cursor) : Reader.Reason → Failure
  | .build e => .build e
  | .fault f =>
    let (kind, expected, note) := c.report f
    match c.position with
    | .ok position => .rejected ⟨kind, expected, c.peek, c.index, position, note⟩
    | .error e => e

/-- Moves to the place where `rest` is what is left to read. -/
def moveTo (c : Cursor) (rest : List Token) (opened : Nat) : Cursor :=
  { c with index := c.index + (c.rest.length - rest.length), depth := c.depth + opened }

def apply {α : Type} (c : Cursor) (r : Reader α) : Except Failure α × Cursor :=
  match r.read c.rest with
  | .ok (a, rest) => (.ok a, c.moveTo rest 0)
  | .error stop =>
    let c := c.moveTo stop.rest stop.opened
    (.error (c.failure stop.reason), c)

/-- A reset leaves nothing of what has been read. -/
theorem resetState_apply {α : Type} (c : Cursor) (r : Reader α) :
    (c.apply r).2.resetState = c.resetState := by
  rw [apply]
  split <;> rfl

def expect (c : Cursor) (kinds : List Token.Kind) : Except Failure Token × Cursor :=
  c.apply (Reader.expect kinds)

/-- Reads the whole list of tokens from its beginning. -/
def parse (c : Cursor) : Except Failure Line × Cursor :=
  let c := { c with index := 0, depth := 0 }
  c.apply (Reader.line c.allowance)

theorem resetState_parse (c : Cursor) : c.parse.2.resetState = c.resetState :=
  resetState_apply _ _

def readAndOr (c : Cursor) : Except Failure AndOr × Cursor := c.apply (Reader.andOr c.allowance)

def readPipeline (c : Cursor) : Except Failure Pipeline × Cursor :=
  c.apply (Reader.pipeline c.allowance)

def readStage (c : Cursor) : Except Failure Stage × Cursor := c.apply (Reader.stage c.allowance)

def readSubshell (c : Cursor) : Except Failure AndOr × Cursor :=
  c.apply (Reader.subshell c.allowance)

def readCommand (c : Cursor) : Except Failure Command × Cursor := c.apply Reader.command

def readRedirection (c : Cursor) : Except Failure Redirection × Cursor :=
  c.apply Reader.redirection

end Cursor

/-- What was made of `count` tokens, in a line for the log; of the failures only syntax errors. -/
def Line.record (count : Nat) : Except Failure Line → Option String
  | .ok .empty => some "Empty input"
  | .ok (.sequence _) => some s!"Parsed {count} tokens"
  | .error (.rejected e) => some s!"Parsing failed: {e.message}"
  | .error _ => none

def Line.ofTokens (tokens : List Token) (maxDepth : Int) (endPosition : Option Int) :
    Except Failure Line := do
  let c ← Cursor.new tokens maxDepth endPosition
  c.parse.1

/-- Reads a command line with at most `maxDepth` nested subshells. -/
def Line.parse (text : String) (maxDepth : Int) : Except Failure Line :=
  ofTokens (tokenize text) maxDepth (some text.length)

end ShellGrammar
