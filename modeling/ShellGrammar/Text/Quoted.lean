import ShellGrammar.Text.Hex
import ShellGrammar.Text.Printable

/-!
Quoted text for messages and outlines: one line of printable characters, whatever the text holds.
The delimiter is the single quote unless only the single quote occurs in the text; backslash and
the delimiter take a backslash, line feed, carriage return and tab have short escapes, and other
unprintable characters are written by code point with two, four or eight digits.
-/
namespace ShellGrammar.Text.Quoted

def delimiter (cs : List Char) : Char :=
  if '\'' ∈ cs ∧ '"' ∉ cs then '"' else '\''

def codePoint (c : Char) : List Char :=
  if c.toNat < 0x100 then '\\' :: 'x' :: hexDigits 2 c.toNat
  else if c.toNat < 0x10000 then '\\' :: 'u' :: hexDigits 4 c.toNat
  else '\\' :: 'U' :: hexDigits 8 c.toNat

def encodeChar (delim c : Char) : List Char :=
  if c = delim ∨ c = '\\' then ['\\', c]
  else if c = '\n' then ['\\', 'n']
  else if c = '\r' then ['\\', 'r']
  else if c = '\t' then ['\\', 't']
  else if isPrintable c then [c]
  else codePoint c

def encode (cs : List Char) : List Char :=
  delimiter cs :: cs.flatMap (encodeChar (delimiter cs)) ++ [delimiter cs]

end Quoted

/-- The text between delimiters, with everything else than plain printable characters escaped. -/
def quoted (s : String) : String := String.ofList (Quoted.encode s.toList)

@[simp] theorem toList_quoted (s : String) : (quoted s).toList = Quoted.encode s.toList :=
  String.toList_ofList

end ShellGrammar.Text
