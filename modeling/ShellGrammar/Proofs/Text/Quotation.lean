import ShellGrammar.Proofs.Text.HexReading
import ShellGrammar.Text.Quoted

/-!
Texts that can be read off what is made of them. Texts that do not hold the separator are read off
their join. A quotation is one line and belongs to one text: every character can be read off its
front, whatever follows.
-/
namespace ShellGrammar.Text

/-- Texts that do not hold the separator are read off their join. -/
theorem splitOn_join (sep : Char) {ss : List String} (h : ∀ s ∈ ss, sep ∉ s.toList)
    (hne : ss ≠ []) : (sep.toString.intercalate ss).toList.splitOn sep = ss.map String.toList := by
  rw [String.toList_intercalate, Char.toString, String.toList_singleton]
  exact List.splitOn_intercalate sep (by simpa using h) (by simpa using hne)

theorem join_inj {sep : Char} {ss ts : List String} (hs : ∀ s ∈ ss, sep ∉ s.toList) (hss : ss ≠ [])
    (ht : ∀ t ∈ ts, sep ∉ t.toList) (hts : ts ≠ [])
    (h : sep.toString.intercalate ss = sep.toString.intercalate ts) : ss = ts := by
  have hsplit := splitOn_join sep hs hss
  rw [h, splitOn_join sep ht hts] at hsplit
  exact ((List.map_inj_right fun _ _ => String.toList_inj.mp).mp hsplit).symm

namespace Quoted
variable {delim c : Char} {as bs rest : List Char}

def readCode (width : Nat) (cs : List Char) : Option (Char × List Char) :=
  (readHex width 0 cs).map fun r => (Char.ofNat r.1, r.2)

/-- The character that the characters behind a backslash stand for. -/
def readEscape : List Char → Option (Char × List Char)
  | 'n' :: cs => some ('\n', cs)
  | 'r' :: cs => some ('\r', cs)
  | 't' :: cs => some ('\t', cs)
  | 'x' :: cs => readCode 2 cs
  | 'u' :: cs => readCode 4 cs
  | 'U' :: cs => readCode 8 cs
  | c :: cs => some (c, cs)
  | [] => none

/-- The character that a quotation without its delimiters begins with. -/
def readChar : List Char → Option (Char × List Char)
  | '\\' :: cs => readEscape cs
  | c :: cs => some (c, cs)
  | [] => none

theorem readCode_hexDigits {width : Nat} (h : c.toNat < 16 ^ width) (rest : List Char) :
    readCode width (hexDigits width c.toNat ++ rest) = some (c, rest) := by
  rw [readCode, readHex_of_lt h, Option.map_some, Char.ofNat_toNat]

theorem readChar_codePoint (c : Char) (rest : List Char) :
    readChar (codePoint c ++ rest) = some (c, rest) := by
  have hc := toNat_valid c
  rw [codePoint]
  split
  · exact readCode_hexDigits (by omega) rest
  · split
    · exact readCode_hexDigits (by omega) rest
    · exact readCode_hexDigits (by omega) rest

theorem readChar_plain (h : c ≠ '\\') (rest : List Char) :
    readChar (c :: rest) = some (c, rest) := by
  rw [readChar]
  simpa using h

theorem delimiter_eq (cs : List Char) : delimiter cs = '\'' ∨ delimiter cs = '"' := by
  rw [delimiter]
  split
  · exact .inr rfl
  · exact .inl rfl

/-- A character is read back from its form in a quotation. -/
theorem readChar_encodeChar (hd : delim = '\'' ∨ delim = '"') (c : Char) (rest : List Char) :
    readChar (encodeChar delim c ++ rest) = some (c, rest) := by
  rw [encodeChar]
  split
  · next h =>
    rcases h with rfl | rfl
    · rcases hd with rfl | rfl <;> rfl
    · rfl
  · next h =>
    split
    · next hn => exact hn ▸ rfl
    split
    · next hr => exact hr ▸ rfl
    split
    · next ht => exact ht ▸ rfl
    split
    · exact readChar_plain (fun he => h (.inr he)) rest
    · exact readChar_codePoint c rest

theorem flatMap_encodeChar_inj (hd : delim = '\'' ∨ delim = '"')
    (h : as.flatMap (encodeChar delim) = bs.flatMap (encodeChar delim)) : as = bs := by
  have hread (c : Char) (cs : List Char) :
      readChar ((c :: cs).flatMap (encodeChar delim)) =
        some (c, cs.flatMap (encodeChar delim)) := by
    rw [List.flatMap_cons]
    exact readChar_encodeChar hd c _
  induction as generalizing bs with
  | nil =>
      cases bs with
      | nil => rfl
      | cons b bs =>
          have hb := hread b bs
          rw [← h] at hb
          cases hb
  | cons a as ih =>
      cases bs with
      | nil =>
          have ha := hread a as
          rw [h] at ha
          cases ha
      | cons b bs =>
          have ha := hread a as
          rw [h, hread b bs, Option.some.injEq, Prod.mk.injEq] at ha
          rw [ha.1, ih ha.2.symm]

theorem encode_inj (h : encode as = encode bs) : as = bs := by
  simp only [encode, List.cons_append, List.cons.injEq] at h
  obtain ⟨hd, h⟩ := h
  rw [hd] at h
  exact flatMap_encodeChar_inj (delimiter_eq bs) (List.append_cancel_right h)

theorem newline_not_mem_encodeChar (hd : delim = '\'' ∨ delim = '"') (c : Char) :
    '\n' ∉ encodeChar delim c := by
  have hhex (width n : Nat) : '\n' ∉ hexDigits width n := fun h =>
    absurd (mem_hexDigits_bounds h).1 (by decide)
  rw [encodeChar]
  split
  · next h =>
    rcases h with rfl | rfl
    · rcases hd with rfl | rfl <;> decide
    · decide
  · split
    · decide
    split
    · decide
    split
    · decide
    split
    · next hn _ _ _ =>
      rw [List.mem_singleton]
      exact fun he => hn he.symm
    · rw [codePoint]
      split
      · simp [hhex]
      · split <;> simp [hhex]

theorem newline_not_mem_encode (cs : List Char) : '\n' ∉ encode cs := by
  have hd := delimiter_eq cs
  have hdelim : '\n' ≠ delimiter cs := by
    rcases hd with hd | hd <;> rw [hd] <;> decide
  simp only [encode, List.cons_append, List.mem_cons, List.mem_append, List.mem_flatMap,
    List.not_mem_nil, or_false, not_or, not_exists, not_and]
  exact ⟨hdelim, fun c _ => newline_not_mem_encodeChar hd c, hdelim⟩

end Quoted

theorem quoted_inj {s t : String} (h : quoted s = quoted t) : s = t := by
  have hchars : Quoted.encode s.toList = Quoted.encode t.toList := by
    rw [← toList_quoted, h, toList_quoted]
  exact String.toList_inj.mp (Quoted.encode_inj hchars)

theorem newline_not_mem_quoted (s : String) : '\n' ∉ (quoted s).toList := by
  rw [toList_quoted]
  exact Quoted.newline_not_mem_encode s.toList

end ShellGrammar.Text
