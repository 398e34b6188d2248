import ShellGrammar.Text.Hex

/-!
JSON documents made of null, strings, arrays and objects, and their text: ASCII only, two columns
of indentation a level, empty arrays and objects on one line.
-/
namespace ShellGrammar

inductive Json
  | null
  | string (s : String)
  | array (items : List Json)
  | object (fields : List (String × Json))

namespace Json

/-- A UTF-16 code unit as an escape. -/
def unitEscape (n : Nat) : List Char := '\\' :: 'u' :: Text.hexDigits 4 n

/-- Characters beyond the Basic Multilingual Plane are written as a pair of surrogates. -/
def codePointEscape (n : Nat) : List Char :=
  if n < 0x10000 then unitEscape n
  else unitEscape (0xD800 + (n - 0x10000) / 0x400) ++ unitEscape (0xDC00 + (n - 0x10000) % 0x400)

def escapeChar (c : Char) : List Char :=
  if c = '"' ∨ c = '\\' then ['\\', c]
  else if c = '\n' then ['\\', 'n']
  else if c = '\r' then ['\\', 'r']
  else if c = '\t' then ['\\', 't']
  else if c = '\x08' then ['\\', 'b']
  else if c = '\x0c' then ['\\', 'f']
  else if 0x20 ≤ c.toNat ∧ c.toNat < 0x7F then [c]
  else codePointEscape c.toNat

def renderString (s : String) (rest : List Char) : List Char :=
  '"' :: s.toList.flatMap escapeChar ++ '"' :: rest

/-- A new line and the indentation of its text. -/
def newline (pad : Nat) (rest : List Char) : List Char := '\n' :: List.replicate pad ' ' ++ rest

mutual

/-- The text of a value, its first line being indented by `pad` columns, in front of `rest`. -/
def render (pad : Nat) (rest : List Char) : Json → List Char
  | null => 'n' :: 'u' :: 'l' :: 'l' :: rest
  | string s => renderString s rest
  | array [] => '[' :: ']' :: rest
  | array (v :: vs) =>
    '[' :: newline (pad + 2) (v.render (pad + 2)
      (renderItems (pad + 2) (newline pad (']' :: rest)) vs))
  | object [] => '\x7b' :: '\x7d' :: rest
  | object (f :: fs) =>
    '\x7b' :: newline (pad + 2) (renderField (pad + 2)
      (renderFields (pad + 2) (newline pad ('\x7d' :: rest)) fs) f)

def renderItems (pad : Nat) (rest : List Char) : List Json → List Char
  | [] => rest
  | v :: vs => ',' :: newline pad (v.render pad (renderItems pad rest vs))

def renderField (pad : Nat) (rest : List Char) : String × Json → List Char
  | (key, v) => renderString key (':' :: ' ' :: v.render pad rest)

def renderFields (pad : Nat) (rest : List Char) : List (String × Json) → List Char
  | [] => rest
  | f :: fs => ',' :: newline pad (renderField pad (renderFields pad rest fs) f)

end

def pretty (v : Json) : String := String.ofList (v.render 0 [])

end Json
end ShellGrammar
