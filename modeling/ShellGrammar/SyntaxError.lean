import ShellGrammar.Token

/-!
Errors of reading a command line: what was expected, which token was found instead, and where.
-/
namespace ShellGrammar

inductive SyntaxError.Kind
  | general
  | unexpectedToken
  | unexpectedEnd
  | emptyGroup
  | trailingInput
  | nestingTooDeep (limit : Int)
  deriving DecidableEq, Repr

/-- `index` counts tokens, `position` characters; nothing is found at the end of the input. -/
structure SyntaxError where
  kind : SyntaxError.Kind
  expected : List Token.Kind
  found : Option Token
  index : Int
  position : Int
  note : String
  deriving DecidableEq, Repr

namespace SyntaxError

def expectedText : List Token.Kind → String
  | [] => "end of input"
  | kinds => " or ".intercalate (kinds.map (·.name))

def foundText : Option Token → String
  | none => "end of input"
  | some t => s!"{t.kind.name} {Text.quoted t.text}"

def message (e : SyntaxError) : String :=
  s!"Error at token {e.index}, char {e.position}: {e.note} " ++
    s!"(expected {expectedText e.expected}, found {foundText e.found})"

end SyntaxError
end ShellGrammar
