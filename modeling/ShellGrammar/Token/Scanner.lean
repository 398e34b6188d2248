import ShellGrammar.Token.Glyph

/-!
The scanner splits a command line into tokens, one character at a time. It looks no further than
the character it is given: a token is completed by the character that follows it, or by the end of
the text. Every text has a sequence of tokens; what begins no operator ends up in a word.
-/
namespace ShellGrammar

inductive Scanner.Mode
  | initial
  | word
  | quotes
  | operator
  | final
  deriving DecidableEq, Repr

namespace Scanner.Mode

def all : List Mode := [initial, word, quotes, operator, final]

def name : Mode → String
  | initial => "INITIAL"
  | word => "WORD"
  | quotes => "QUOTES"
  | operator => "OPERATOR"
  | final => "FINAL"

def code : Mode → Nat
  | initial => 0
  | word => 1
  | quotes => 2
  | operator => 3
  | final => 4

end Scanner.Mode

/-- The token under construction; it has no kind until a character has settled one. -/
structure Scanner.Pending where
  text : String
  kind : Option Token.Kind
  position : Nat
  deriving DecidableEq, Repr

namespace Scanner.Pending

def blank (position : Nat) : Pending := ⟨"", none, position⟩

def token? (p : Pending) : Option Token := p.kind.map fun kind => ⟨p.text, kind, p.position⟩

end Scanner.Pending

/-- `offset` counts the characters read, `escape` tells that a backslash came last. -/
structure Scanner where
  mode : Scanner.Mode
  pending : Scanner.Pending
  escape : Bool
  inQuotes : Bool
  quote : Option Char
  offset : Nat
  deriving DecidableEq, Repr

namespace Scanner

inductive Fault
  /-- A character came after the end of the text. -/
  | finished
  | unknownOperator (text : String)
  deriving DecidableEq, Repr

/-- What a scanner has become, with the tokens it completed on the way. -/
structure Outcome where
  scanner : Scanner
  tokens : List Token
  fault : Option Fault
  deriving DecidableEq, Repr

def new : Scanner := ⟨.initial, .blank 0, false, false, none, 0⟩

/-- Forgets everything but the number of characters read. -/
def resetState (s : Scanner) : Scanner := ⟨.initial, .blank s.offset, false, false, none, s.offset⟩

def reset (s : Scanner) : Scanner := { s with offset := 0 }.resetState

/-- No quote is open and no backslash waits for its character. -/
def closed (s : Scanner) : Bool := !s.inQuotes && !s.escape

/-- The next character with the meaning it has after what was read before. -/
def glyph (s : Scanner) (c : Char) : Glyph :=
  ⟨c, if s.escape then false
      else if s.inQuotes then
        if s.quote = some '\'' then c == '\'' else c == '"' || c == '\\'
      else true⟩

/-- Completes the pending token, if there is one, and goes on in mode `mode`. -/
def push (s : Scanner) (mode : Mode) : Scanner × List Token :=
  ({ s with mode, pending := .blank s.offset }, s.pending.token?.toList)

def delimit (s : Scanner) (g : Glyph) : Scanner × List Token :=
  let text := g.char.toString
  if g.isLParen then push { s with pending := ⟨text, some .lparen, s.offset⟩ } .initial
  else if g.isRParen then push { s with pending := ⟨text, some .rparen, s.offset⟩ } .initial
  else ({ s with mode := .operator, pending := ⟨text, s.pending.kind, s.offset⟩ }, [])

/-- One more character of a word, outside quotes. -/
def nextInWord (s : Scanner) (g : Glyph) : Scanner × List Token :=
  if g.isEscape then ({ s with escape := true }, [])
  else if g.isQuote then
    ({ s with mode := .quotes, pending := { s.pending with kind := some .word }, inQuotes := true,
              quote := some g.char }, [])
  else if g.isBlank then s.push .initial
  else if g.isDelimiter then
    let (s, before) := s.push .initial
    let (s, after) := s.delimit g
    (s, before ++ after)
  else if s.escape && g.char == '\n' then (s, [])
  else
    ({ s with
        pending := { s.pending with text := s.pending.text.push g.char, kind := some .word } },
      [])

def nextInitial (s : Scanner) (g : Glyph) : Scanner × List Token :=
  let s := { s with pending := { s.pending with position := s.offset } }
  if g.isBlank then (s, [])
  else if g.isDelimiter then s.delimit g
  else { s with mode := .word }.nextInWord g

/-- In double quotes a backslash stays unless a double quote or a backslash follows it. -/
def nextInQuotes (s : Scanner) (g : Glyph) : Scanner :=
  if g.isQuote && s.quote == some g.char then
    { s with mode := .word, inQuotes := false, quote := none }
  else if g.isEscape then { s with escape := true }
  else
    let kept :=
      if s.escape && !(g.char == '"' || g.char == '\\') then s.pending.text.push '\\'
      else s.pending.text
    { s with pending := { s.pending with text := kept.push g.char } }

/-- Completes an operator of one character. -/
def pushOperator (s : Scanner) : Except Fault (Scanner × List Token) :=
  match Glyph.singleOperators.lookup s.pending.text with
  | some kind => .ok ({ s with pending := { s.pending with kind := some kind } }.push .initial)
  | none => .error (.unknownOperator s.pending.text)

def pairOperator? (s : Scanner) (g : Glyph) : Option Token.Kind :=
  if g.authentic then Glyph.doubleOperators.lookup (s.pending.text.push g.char) else none

def nextAfterOperator (s : Scanner) (g : Glyph) : Except Fault (Scanner × List Token) :=
  match s.pairOperator? g with
  | some kind =>
    .ok ({ s with pending := ⟨s.pending.text.push g.char, some kind, s.pending.position⟩ }.push
      .initial)
  | none => do
    let (s, before) ← s.pushOperator
    let (s, after) := s.nextInitial g
    return (s, before ++ after)

def dispatch (s : Scanner) (g : Glyph) : Except Fault (Scanner × List Token) :=
  match s.mode with
  | .initial => .ok (s.nextInitial g)
  | .word => .ok (s.nextInWord g)
  | .quotes => .ok (s.nextInQuotes g, [])
  | .operator => s.nextAfterOperator g
  | .final => .error .finished

/-- Reads one character. -/
def next (s : Scanner) (c : Char) : Except Fault (Scanner × List Token) := do
  let g := s.glyph c
  let (s, tokens) ← s.dispatch g
  return ({ s with escape := g.isEscape && s.escape, offset := s.offset + 1 }, tokens)

/-- Reads a text; after a fault the scanner is as the characters before it left it. -/
def feed (s : Scanner) : List Char → Outcome
  | [] => ⟨s, [], none⟩
  | c :: cs =>
    match s.next c with
    | .error fault => ⟨s, [], some fault⟩
    | .ok (s, tokens) =>
      let rest := s.feed cs
      { rest with tokens := tokens ++ rest.tokens }

/-- The pending token as the end of the text leaves it: a last backslash stands for itself. -/
def settle (s : Scanner) : Scanner :=
  if s.escape then
    { s with
      escape := false
      pending := { s.pending with text := s.pending.text.push '\\', kind := some .word } }
  else s

/-- The end of the text. -/
def finish (s : Scanner) : Outcome :=
  match s.mode with
  | .operator =>
    match s.pushOperator with
    | .error fault => ⟨s, [], some fault⟩
    | .ok (s, tokens) => ⟨{ s with mode := .final }, tokens, none⟩
  | _ =>
    let (s, tokens) := s.settle.push .final
    ⟨s, tokens, none⟩

/-- Reads a text to its end. -/
def scan (s : Scanner) (cs : List Char) : Outcome :=
  let read := s.feed cs
  let last := read.scanner.finish
  { last with tokens := read.tokens ++ last.tokens }

@[simp] theorem feed_nil (s : Scanner) : s.feed [] = ⟨s, [], none⟩ := rfl

theorem feed_final {s : Scanner} (h : s.mode = .final) (c : Char) (cs : List Char) :
    s.feed (c :: cs) = ⟨s, [], some .finished⟩ := by
  simp [feed, next, dispatch, h, bind, Except.bind]

end Scanner

/-- The tokens of a command line. -/
def tokenize (text : String) : List Token := (Scanner.new.scan text.toList).tokens

end ShellGrammar
