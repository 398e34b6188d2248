import ShellGrammar.Text.Blank
import ShellGrammar.Token

/-!
Characters as the scanner meets them. A character that a quote or a backslash has deprived of its
meaning is not authentic and belongs to none of the special classes.
-/
namespace ShellGrammar

structure Glyph where
  char : Char
  authentic : Bool
  deriving DecidableEq, Repr

namespace Glyph

/-- Operators of one character; a single ampersand is a word of its own. -/
def singleOperators : List (String × Token.Kind) :=
  [("|", .pipe), (">", .redirOut), ("<", .redirIn), ("&", .word)]

def doubleOperators : List (String × Token.Kind) :=
  [("&&", .andAnd), ("||", .orOr), (">>", .redirAppend), ("<<", .heredoc)]

def isBlank (g : Glyph) : Bool := g.authentic && Text.isBlank g.char

def isQuote (g : Glyph) : Bool := g.authentic && (g.char == '\'' || g.char == '"')

def isEscape (g : Glyph) : Bool := g.authentic && g.char == '\\'

def isLParen (g : Glyph) : Bool := g.authentic && g.char == '('

def isRParen (g : Glyph) : Bool := g.authentic && g.char == ')'

def isOperator (g : Glyph) : Bool :=
  g.authentic && (g.char == '|' || g.char == '>' || g.char == '<' || g.char == '&')

/-- Ends a word and begins a token by itself. -/
def isDelimiter (g : Glyph) : Bool := g.isLParen || g.isRParen || g.isOperator

def description (g : Glyph) : String :=
  if g.authentic then Text.quoted g.char.toString else Text.quoted ("\\" ++ g.char.toString)

end Glyph
end ShellGrammar
