import ShellGrammar.Proofs.Json.Ascii
import ShellGrammar.Proofs.Json.Reader
import ShellGrammar.Proofs.Tree.Export

/-!
A document is ASCII and is read back as the value that it was written from. An escaped character is
read back first, then a string, then the symbols of a value between any others, and last the value
from its symbols. For a command line the value is the outline of its tree, so the document tells it
apart from any other tree.
-/
namespace ShellGrammar
namespace Json

variable {cs rest : List Char} {c : Char} {n : Nat} {s : Symbol} {ss : List Symbol}

theorem readChar_unitEscape (h : n < 16 ^ 4) (rest : List Char) :
    readChar (unitEscape n ++ rest) = readAfterUnit n rest := by
  rw [unitEscape, List.cons_append, List.cons_append, readChar, if_pos rfl, readEscape,
    Text.readHex_of_lt h, Option.bind_some]

theorem readUnit_unitEscape (h : n < 16 ^ 4) (rest : List Char) :
    readUnit (unitEscape n ++ rest) = some (n, rest) := by
  rw [unitEscape, List.cons_append, List.cons_append, readUnit, Text.readHex_of_lt h]

theorem readChar_codePointEscape (c : Char) (rest : List Char) :
    readChar (codePointEscape c.toNat ++ rest) = some (c, rest) := by
  have hvalid := Text.toNat_valid c
  by_cases h : c.toNat < 0x10000
  · rw [codePointEscape, if_pos h, readChar_unitEscape h, readAfterUnit, if_neg (by omega),
      if_neg (by omega), Char.ofNat_toNat]
  · have hhigh : 0xD800 + (c.toNat - 0x10000) / 0x400 < 0xDC00 := by omega
    have hlow : 0xDC00 + (c.toNat - 0x10000) % 0x400 < 0xE000 := by omega
    have hsum : 0x10000 + (0xD800 + (c.toNat - 0x10000) / 0x400 - 0xD800) * 0x400 +
        (0xDC00 + (c.toNat - 0x10000) % 0x400 - 0xDC00) = c.toNat := by omega
    rw [codePointEscape, if_neg h, List.append_assoc, readChar_unitEscape (by omega),
      readAfterUnit, if_pos ⟨Nat.le_add_right _ _, hhigh⟩, readUnit_unitEscape (by omega)]
    simp only
    rw [if_pos ⟨Nat.le_add_right _ _, hlow⟩, hsum, Char.ofNat_toNat]

theorem readChar_escapeChar (c : Char) (rest : List Char) :
    readChar (escapeChar c ++ rest) = some (c, rest) := by
  unfold escapeChar
  split
  · next h => rcases h with rfl | rfl <;> rfl
  · next hquote =>
    iterate 5
      split
      · next h => subst h; rfl
    split
    · next hprintable =>
      have hplain : ¬ (c = '"' ∨ c.toNat < 0x20) :=
        fun h => h.elim (fun h => hquote (.inl h)) (Nat.not_lt.mpr hprintable.1)
      rw [List.singleton_append, readChar, if_neg fun h => hquote (.inr h), if_neg hplain]
    · exact readChar_codePointEscape c rest

/-- A string that goes on does not begin with the mark that would end it. -/
theorem head?_ne_of_readChar {r : Char × List Char} (h : readChar cs = some r) :
    cs.head? ≠ some '"' := by
  intro hhead
  obtain ⟨_, rfl⟩ := List.head?_eq_some_iff.mp hhead
  cases h

theorem readString_flatMap (text rest : List Char) :
    readString (text.flatMap escapeChar ++ '"' :: rest) = some (text, rest) := by
  induction text with
  | nil =>
      rw [readString]
      rfl
  | cons c text ih =>
      have hchar := readChar_escapeChar c (text.flatMap escapeChar ++ '"' :: rest)
      rw [List.flatMap_cons, List.append_assoc, readString, if_neg (head?_ne_of_readChar hchar)]
      split
      · next hread =>
        obtain ⟨rfl, rfl⟩ := Prod.mk.inj (Option.some.inj (hread.symm.trans hchar))
        rw [ih, Option.map_some]
      · next hread => cases hread.symm.trans hchar

theorem symbols_cons (hc : isBlank c = false) (hs : symbol? (c :: cs) = some (s, rest))
    (h : symbols rest = some ss) : symbols (c :: cs) = some (s :: ss) := by
  rw [symbols, hc, if_neg (by decide)]
  split
  · next hread =>
    obtain ⟨rfl, rfl⟩ := Prod.mk.inj (Option.some.inj (hread.symm.trans hs))
    rw [h, Option.map_some]
  · next hread => cases hread.symm.trans hs

theorem symbols_blank (hc : isBlank c = true) (cs : List Char) :
    symbols (c :: cs) = symbols cs := by
  rw [symbols, if_pos hc]

theorem symbols_newline (pad : Nat) (rest : List Char) :
    symbols (newline pad rest) = symbols rest := by
  rw [newline, List.cons_append, symbols_blank (by decide)]
  induction pad with
  | zero => rfl
  | succ pad ih =>
      rw [List.replicate_succ, List.cons_append, symbols_blank (by decide)]
      exact ih

theorem symbols_string (text : String) (h : symbols rest = some ss) :
    symbols (renderString text rest) = some (.string text :: ss) := by
  have hread := readString_flatMap text.toList rest
  refine symbols_cons (by decide) ?_ h
  rw [List.append_eq, symbol?, hread, Option.map_some, String.ofList_toList]

mutual

/-- The symbols of a value in front of `ss`. -/
def flatten (ss : List Symbol) : Json → List Symbol
  | null => .null :: ss
  | string s => .string s :: ss
  | array [] => .beginArray :: .endArray :: ss
  | array (v :: vs) => .beginArray :: v.flatten (flattenItems (.endArray :: ss) vs)
  | object [] => .beginObject :: .endObject :: ss
  | object (f :: fs) => .beginObject :: flattenField (flattenFields (.endObject :: ss) fs) f

def flattenItems (ss : List Symbol) : List Json → List Symbol
  | [] => ss
  | v :: vs => .comma :: v.flatten (flattenItems ss vs)

def flattenField (ss : List Symbol) : String × Json → List Symbol
  | (key, v) => .string key :: .colon :: v.flatten ss

def flattenFields (ss : List Symbol) : List (String × Json) → List Symbol
  | [] => ss
  | f :: fs => .comma :: flattenField (flattenFields ss fs) f

end

mutual

/-- Every step needs the symbols of what stands behind it: the end of an array or an object comes
before its items, and these before the first of them. -/
theorem symbols_render {rest : List Char} {ss : List Symbol} (pad : Nat)
    (h : symbols rest = some ss) : (v : Json) → symbols (v.render pad rest) = some (v.flatten ss)
  | null => symbols_cons (by decide) rfl h
  | string s => symbols_string s h
  | array [] => symbols_cons (by decide) rfl (symbols_cons (by decide) rfl h)
  | array (v :: vs) => by
      have hend := symbols_cons (by decide) (rfl : symbol? (']' :: rest) = _) h
      have hitems := symbols_renderItems (pad + 2) ((symbols_newline pad _).trans hend) vs
      exact symbols_cons (by decide) rfl
        ((symbols_newline (pad + 2) _).trans (symbols_render (pad + 2) hitems v))
  | object [] => symbols_cons (by decide) rfl (symbols_cons (by decide) rfl h)
  | object (f :: fs) => by
      have hend := symbols_cons (by decide) (rfl : symbol? ('\x7d' :: rest) = _) h
      have hfields := symbols_renderFields (pad + 2) ((symbols_newline pad _).trans hend) fs
      exact symbols_cons (by decide) rfl
        ((symbols_newline (pad + 2) _).trans (symbols_renderField (pad + 2) hfields f))

theorem symbols_renderItems {rest : List Char} {ss : List Symbol} (pad : Nat)
    (h : symbols rest = some ss) :
    (vs : List Json) → symbols (renderItems pad rest vs) = some (flattenItems ss vs)
  | [] => h
  | v :: vs => symbols_cons (by decide) rfl
      ((symbols_newline pad _).trans (symbols_render pad (symbols_renderItems pad h vs) v))

theorem symbols_renderField {rest : List Char} {ss : List Symbol} (pad : Nat)
    (h : symbols rest = some ss) :
    (f : String × Json) → symbols (renderField pad rest f) = some (flattenField ss f)
  | (key, v) => symbols_string key
      (symbols_cons (by decide) rfl
        ((symbols_blank (by decide) _).trans (symbols_render pad h v)))

theorem symbols_renderFields {rest : List Char} {ss : List Symbol} (pad : Nat)
    (h : symbols rest = some ss) :
    (fs : List (String × Json)) → symbols (renderFields pad rest fs) = some (flattenFields ss fs)
  | [] => h
  | f :: fs => symbols_cons (by decide) rfl
      ((symbols_newline pad _).trans (symbols_renderField pad (symbols_renderFields pad h fs) f))

end

theorem flatten_head?_ne (ss : List Symbol) (v : Json) :
    (v.flatten ss).head? ≠ some .endArray := by
  cases v with
  | null | string _ => simp [flatten]
  | array vs => cases vs <;> simp [flatten]
  | object fs => cases fs <;> simp [flatten]

theorem readValue_beginArray (stack : List Frame) (h : ss.head? ≠ some .endArray) :
    readValue stack (.beginArray :: ss) = readValue (.array [] :: stack) ss := by
  cases ss with
  | nil => simp [readValue]
  | cons s ss =>
      cases s <;> simp_all [readValue]

mutual

theorem readValue_flatten (stack : List Frame) (ss : List Symbol) :
    (v : Json) → readValue stack (v.flatten ss) = supply stack v ss
  | null | string _ => by rw [flatten, readValue]
  | array [] => by rw [flatten, readValue]
  | array (v :: vs) => by
      rw [flatten, readValue_beginArray stack (flatten_head?_ne _ v), readValue_flatten _ _ v,
        supply_flattenItems stack [] v ss vs, List.nil_append]
  | object [] => by rw [flatten, readValue]
  | object ((key, v) :: fs) => by
      rw [flatten, flattenField, readValue, readValue_flatten _ _ v,
        supply_flattenFields stack [] key v ss fs, List.nil_append]

theorem supply_flattenItems (stack : List Frame) (items : List Json) (v : Json)
    (ss : List Symbol) : (vs : List Json) →
    supply (.array items :: stack) v (flattenItems (.endArray :: ss) vs) =
      supply stack (.array (items ++ v :: vs)) ss
  | [] => by rw [flattenItems, supply]
  | w :: ws => by
      rw [flattenItems, supply, readValue_flatten _ _ w, supply_flattenItems stack _ w ss ws,
        List.append_assoc, List.singleton_append]

theorem supply_flattenFields (stack : List Frame) (fields : List (String × Json)) (key : String)
    (v : Json) (ss : List Symbol) : (fs : List (String × Json)) →
    supply (.object fields key :: stack) v (flattenFields (.endObject :: ss) fs) =
      supply stack (.object (fields ++ (key, v) :: fs)) ss
  | [] => by rw [flattenFields, supply]
  | (next, w) :: fs => by
      rw [flattenFields, flattenField, supply, readValue_flatten _ _ w,
        supply_flattenFields stack _ next w ss fs, List.append_assoc, List.singleton_append]

end

/-- A value is read back from its document. -/
theorem read?_pretty (v : Json) : read? v.pretty = some v := by
  rw [read?, pretty, String.toList_ofList, symbols_render 0 (by rw [symbols]) v, Option.bind_some,
    readValue_flatten, supply]

/-- Other layouts and escapes are read as well; writing the value brings them into one form. -/
example : (read? "[ null ,\"\\uD834\\udd1e\\/\"]").map pretty =
    some "[\n  null,\n  \"\\ud834\\udd1e/\"\n]" := by decide +kernel

end Json

/-- The document of a node is ASCII, it is read back as the outline of the node, and no other node
has it. -/
theorem Node.render_json_lossless (n : Node) :
    (∀ c ∈ (n.render .json).toList, c.toNat < 0x80) ∧
      Json.read? (n.render .json) = some n.outline.json ∧
      ∀ m : Node, m.render .json = n.render .json ↔ m = n := by
  refine ⟨Json.ascii_pretty _, Json.read?_pretty _, fun m => ⟨fun h => ?_, fun h => h ▸ rfl⟩⟩
  have hread : some m.outline.json = some n.outline.json :=
    (Json.read?_pretty _).symm.trans ((congrArg Json.read? h).trans (Json.read?_pretty _))
  exact outline_inj (Outline.json_inj (Option.some.inj hread))

/-- A word of a control character, a character that takes two code units and a quotation mark. -/
theorem Node.render_json_lossless_escaped :
    let n : Node := .word ⟨"\x7f𝄞\""⟩
    let text := "\x7b\n  \"type\": \"WORD\",\n  \"label\": \"\\u007f\\ud834\\udd1e\\\"\",\n" ++
      "  \"children\": []\n\x7d"
    n.render .json = text ∧ 'u' ∈ (n.render .json).toList ∧ 'u'.toNat < 0x80 ∧
      Json.read? text = some n.outline.json ∧ (Node.word ⟨"\x7f"⟩).render .json ≠ text := by
  intro n text
  obtain ⟨hascii, hread, hinj⟩ := render_json_lossless n
  have htext : n.render .json = text := by
    rw [render, outline_eq]
    decide +kernel
  have hmem : 'u' ∈ (n.render .json).toList := by
    rw [htext]
    decide +kernel
  refine ⟨htext, hmem, hascii _ hmem, htext ▸ hread, fun h => ?_⟩
  have hsame := (hinj _).mp (h.trans htext.symm)
  exact absurd hsame (by decide)

end ShellGrammar
