import ShellGrammar.Json
import ShellGrammar.Proofs.Text.HexReading

/-!
A reader of JSON documents. A text is split into symbols, with blanks anywhere between them, and the
symbols are put together while a stack holds the arrays and objects that are open. In a string the
short escapes, the escaped code units, with digits in lower or upper case, and the escaped pairs of
surrogates stand for one character each; unknown escapes, surrogates without their partner and bare
control characters are refused. The values are those that the type of documents has, so numbers and
truth values are refused as well.
-/
namespace ShellGrammar.Json
open Text (readHex readHex_rest_le)

/-- What the character behind a backslash stands for. -/
def shortEscape? : Char → Option Char
  | '"' => some '"'
  | '\\' => some '\\'
  | '/' => some '/'
  | 'b' => some '\x08'
  | 'f' => some '\x0c'
  | 'n' => some '\n'
  | 'r' => some '\r'
  | 't' => some '\t'
  | _ => none

/-- Reads an escaped code unit. -/
def readUnit : List Char → Option (Nat × List Char)
  | '\\' :: 'u' :: cs => readHex 4 0 cs
  | _ => none

/-- The character of a code unit, the escape of the unit being read; behind a high surrogate the
escape of a low one must follow, and the two are combined. -/
def readAfterUnit (unit : Nat) (cs : List Char) : Option (Char × List Char) :=
  if 0xD800 ≤ unit ∧ unit < 0xDC00 then
    match readUnit cs with
    | some (low, rest) =>
      if 0xDC00 ≤ low ∧ low < 0xE000 then
        some (Char.ofNat (0x10000 + (unit - 0xD800) * 0x400 + (low - 0xDC00)), rest)
      else none
    | none => none
  else if 0xDC00 ≤ unit ∧ unit < 0xE000 then none
  else some (Char.ofNat unit, cs)

/-- The character that an escape stands for, and what follows it; the backslash is read. -/
def readEscape : List Char → Option (Char × List Char)
  | 'u' :: cs => (readHex 4 0 cs).bind fun r => readAfterUnit r.1 r.2
  | c :: cs => (shortEscape? c).map fun e => (e, cs)
  | [] => none

/-- The first character of a string and the text that follows it. -/
def readChar : List Char → Option (Char × List Char)
  | c :: cs =>
    if c = '\\' then readEscape cs
    else if c = '"' ∨ c.toNat < 0x20 then none
    else some (c, cs)
  | [] => none

variable {cs rest : List Char} {c : Char} {n : Nat}

theorem readUnit_rest_le (h : readUnit cs = some (n, rest)) : rest.length ≤ cs.length := by
  unfold readUnit at h
  split at h
  · have hle := readHex_rest_le h
    simp only [List.length_cons]
    omega
  · cases h

theorem readAfterUnit_rest_le (h : readAfterUnit n cs = some (c, rest)) :
    rest.length ≤ cs.length := by
  unfold readAfterUnit at h
  split at h
  · split at h
    · next hunit =>
      split at h
      · obtain ⟨-, rfl⟩ := Prod.mk.inj (Option.some.inj h)
        exact readUnit_rest_le hunit
      · cases h
    · cases h
  · split at h
    · cases h
    · obtain ⟨-, rfl⟩ := Prod.mk.inj (Option.some.inj h)
      exact Nat.le_refl _

theorem readEscape_rest_le (h : readEscape cs = some (c, rest)) : rest.length ≤ cs.length := by
  unfold readEscape at h
  split at h
  · obtain ⟨⟨unit, middle⟩, hunit, hafter⟩ := Option.bind_eq_some_iff.mp h
    exact Nat.le_succ_of_le (Nat.le_trans (readAfterUnit_rest_le hafter) (readHex_rest_le hunit))
  · obtain ⟨e, _, he⟩ := Option.map_eq_some_iff.mp h
    obtain ⟨-, rfl⟩ := Prod.mk.inj he
    exact Nat.le_succ _
  · cases h

theorem readChar_rest_lt (h : readChar cs = some (c, rest)) : rest.length < cs.length := by
  unfold readChar at h
  split at h
  · split at h
    · exact Nat.lt_succ_of_le (readEscape_rest_le h)
    · split at h
      · cases h
      · obtain ⟨-, rfl⟩ := Prod.mk.inj (Option.some.inj h)
        exact Nat.lt_succ_self _
  · cases h

/-- The characters of a string up to the quotation mark that ends it, and what follows that. -/
def readString (cs : List Char) : Option (List Char × List Char) :=
  if cs.head? = some '"' then some ([], cs.tail)
  else
    match _h : readChar cs with
    | some (c, rest) => (readString rest).map fun r => (c :: r.1, r.2)
    | none => none
termination_by cs.length
decreasing_by exact readChar_rest_lt _h

theorem readString_rest_le {text : List Char} (h : readString cs = some (text, rest)) :
    rest.length ≤ cs.length := by
  fun_induction readString cs generalizing text with
  | case1 cs _ =>
      cases h
      rw [List.length_tail]
      exact Nat.sub_le _ _
  | case2 cs _ c middle hchar ih =>
      obtain ⟨r, hr, he⟩ := Option.map_eq_some_iff.mp h
      cases he
      exact Nat.le_trans (ih hr) (Nat.le_of_lt (readChar_rest_lt hchar))
  | case3 => cases h

inductive Symbol
  | beginArray
  | endArray
  | beginObject
  | endObject
  | colon
  | comma
  | null
  | string (text : String)

/-- The characters that may stand between symbols. -/
def isBlank (c : Char) : Bool := c = ' ' ∨ c = '\t' ∨ c = '\n' ∨ c = '\r'

def symbol? : List Char → Option (Symbol × List Char)
  | '[' :: cs => some (.beginArray, cs)
  | ']' :: cs => some (.endArray, cs)
  | '\x7b' :: cs => some (.beginObject, cs)
  | '\x7d' :: cs => some (.endObject, cs)
  | ':' :: cs => some (.colon, cs)
  | ',' :: cs => some (.comma, cs)
  | 'n' :: 'u' :: 'l' :: 'l' :: cs => some (.null, cs)
  | '"' :: cs => (readString cs).map fun r => (.string (String.ofList r.1), r.2)
  | _ => none

theorem symbol?_rest_lt {s : Symbol} (h : symbol? cs = some (s, rest)) :
    rest.length < cs.length := by
  unfold symbol? at h
  split at h
  case h_8 =>
    obtain ⟨r, hr, he⟩ := Option.map_eq_some_iff.mp h
    cases he
    exact Nat.lt_succ_of_le (readString_rest_le hr)
  case h_9 => cases h
  all_goals
    cases h
    simp only [List.length_cons]
    omega

/-- The symbols of a text, or none if something else is met. -/
def symbols (cs : List Char) : Option (List Symbol) :=
  match cs with
  | [] => some []
  | c :: cs =>
    if isBlank c then symbols cs
    else
      match _h : symbol? (c :: cs) with
      | some (s, rest) => (symbols rest).map (s :: ·)
      | none => none
termination_by cs.length
decreasing_by
  · exact Nat.lt_succ_self _
  · exact symbol?_rest_lt _h

/-- An open array or object with the items or fields that it has so far; in an object the value of
`key` comes next. -/
inductive Frame
  | array (items : List Json)
  | object (fields : List (String × Json)) (key : String)

mutual

/-- Goes on where a value must begin; of the containers that are open the innermost comes first. -/
def readValue (stack : List Frame) (ss : List Symbol) : Option Json :=
  match ss with
  | .null :: ss => supply stack .null ss
  | .string text :: ss => supply stack (.string text) ss
  | .beginArray :: .endArray :: ss => supply stack (.array []) ss
  | .beginArray :: ss => readValue (.array [] :: stack) ss
  | .beginObject :: .endObject :: ss => supply stack (.object []) ss
  | .beginObject :: .string key :: .colon :: ss => readValue (.object [] key :: stack) ss
  | _ => none

/-- Goes on where the value `v` has just ended. -/
def supply (stack : List Frame) (v : Json) (ss : List Symbol) : Option Json :=
  match stack, ss with
  | [], [] => some v
  | .array items :: stack, .comma :: ss => readValue (.array (items ++ [v]) :: stack) ss
  | .array items :: stack, .endArray :: ss => supply stack (.array (items ++ [v])) ss
  | .object fields key :: stack, .comma :: .string next :: .colon :: ss =>
    readValue (.object (fields ++ [(key, v)]) next :: stack) ss
  | .object fields key :: stack, .endObject :: ss =>
    supply stack (.object (fields ++ [(key, v)])) ss
  | _, _ => none

end

/-- The value of a document, which is a single value. -/
def read? (document : String) : Option Json := (symbols document.toList).bind (readValue [])

end ShellGrammar.Json
