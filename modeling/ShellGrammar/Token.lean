import ShellGrammar.Text.Quoted

/-!
Tokens of a command line: a kind, the text the token stands for, and the number of characters
before its first one.
-/
namespace ShellGrammar

inductive Token.Kind
  | lparen
  | rparen
  | andAnd
  | orOr
  | pipe
  | redirIn
  | redirOut
  | redirAppend
  | heredoc
  | word
  deriving DecidableEq, Repr

namespace Token.Kind

def all : List Kind :=
  [lparen, rparen, andAnd, orOr, pipe, redirIn, redirOut, redirAppend, heredoc, word]

/-- The kinds of the operators that open a redirection. -/
def redirections : List Kind := [redirIn, redirOut, redirAppend, heredoc]

/-- The kinds of the operators that join pipelines. -/
def logical : List Kind := [andAnd, orOr]

def name : Kind → String
  | lparen => "LPAREN"
  | rparen => "RPAREN"
  | andAnd => "AND_AND"
  | orOr => "OR_OR"
  | pipe => "PIPE"
  | redirIn => "REDIR_IN"
  | redirOut => "REDIR_OUT"
  | redirAppend => "REDIR_APPEND"
  | heredoc => "HEREDOC"
  | word => "WORD"

def code : Kind → Nat
  | lparen => 1
  | rparen => 2
  | andAnd => 3
  | orOr => 4
  | pipe => 5
  | redirIn => 6
  | redirOut => 7
  | redirAppend => 8
  | heredoc => 9
  | word => 10

def ofName? (name : String) : Option Kind := all.find? (·.name == name)

/-- The only text of a token of this kind; a word may have any text. -/
def spelling? : Kind → Option String
  | lparen => some "("
  | rparen => some ")"
  | andAnd => some "&&"
  | orOr => some "||"
  | pipe => some "|"
  | redirIn => some "<"
  | redirOut => some ">"
  | redirAppend => some ">>"
  | heredoc => some "<<"
  | word => none

end Token.Kind

structure Token where
  text : String
  kind : Token.Kind
  position : Int
  deriving DecidableEq, Repr

namespace Token

/-- The text of the token is the one that its kind stands for. -/
def WellSpelled (t : Token) : Prop := ∀ s, t.kind.spelling? = some s → t.text = s

instance (t : Token) : Decidable t.WellSpelled :=
  inferInstanceAs (Decidable (∀ s ∈ t.kind.spelling?, t.text = s))

def description (t : Token) : String :=
  s!"<Token text={Text.quoted t.text} kind=Kind.{t.kind.name} position={t.position}>"

end Token
end ShellGrammar
