import ShellGrammar.Proofs.Lexing.Partition
import ShellGrammar.Proofs.RoundTrip

/-!
What the message of a syntax error tells of its place: the numbers of the token and of the character
can be read off it. Since the tokens of a text stand one behind the other, the error of a text is
told from every error that is met in the text when its first tokens are missing.
-/
namespace ShellGrammar
open Lexing

namespace SyntaxError

theorem isDigit_of_mem_toString {n : Nat} {c : Char} (h : c ∈ (toString (n : Int)).toList) :
    c.isDigit = true := by
  have hrepr : (toString (n : Int)).toList = Nat.toDigits 10 n := Nat.toList_repr
  rw [hrepr] at h
  exact Nat.isDigit_of_mem_toDigits (by decide) (by decide) h

/-- A number ends at the first character that is no digit. -/
theorem number_inj {m n : Nat} {c : Char} {us vs : List Char} (hc : c.isDigit = false)
    (h : (toString (m : Int)).toList ++ c :: us = (toString (n : Int)).toList ++ c :: vs) :
    m = n ∧ us = vs := by
  have htake (n : Nat) (us : List Char) :
      ((toString (n : Int)).toList ++ c :: us).takeWhile Char.isDigit = Nat.toDigits 10 n := by
    rw [List.takeWhile_append_of_pos fun _ hmem => isDigit_of_mem_toString hmem,
      List.takeWhile_cons_of_neg (by rw [hc]; exact Bool.false_ne_true), List.append_nil]
    exact Nat.toList_repr
  have hdigits : Nat.toDigits 10 m = Nat.toDigits 10 n := by rw [← htake m us, h, htake n vs]
  have hnumber : m = n := by
    rw [← @Nat.ofDigitChars_ten_toDigits m, hdigits, Nat.ofDigitChars_ten_toDigits]
  subst hnumber
  exact ⟨rfl, (List.cons.inj (List.append_cancel_left h)).2⟩

theorem toList_message (e : SyntaxError) : ∃ reason : String,
    e.message.toList = "Error at token ".toList ++ ((toString e.index).toList ++
      (", char ".toList ++ ((toString e.position).toList ++ (": ".toList ++ reason.toList)))) := by
  unfold message
  generalize toString e.index = index
  generalize toString e.position = position
  generalize s!"(expected {expectedText e.expected}, found {foundText e.found})" = kinds
  refine ⟨e.note ++ (" " ++ kinds), ?_⟩
  simp only [String.toList_append, List.append_assoc]
  rfl

/-- Errors with one message have one place. -/
theorem place_of_message_eq {e e' : SyntaxError} {i j : Nat} (h : e.message = e'.message)
    (hi : e.index = i) (hj : e'.index = j) :
    i = j ∧ ∀ p q : Nat, e.position = p → e'.position = q → p = q := by
  have hchar : ", char ".toList = ',' :: " char ".toList := by decide +kernel
  have hcolon : ": ".toList = ':' :: [' '] := by decide +kernel
  obtain ⟨reason, hmessage⟩ := e.toList_message
  obtain ⟨reason', hmessage'⟩ := e'.toList_message
  rw [h, hmessage', hi, hj, hchar, hcolon] at hmessage
  obtain ⟨hindex, hrest⟩ := number_inj (by decide) (List.append_cancel_left hmessage)
  refine ⟨hindex.symm, fun p q hp hq => ?_⟩
  rw [hp, hq] at hrest
  exact (number_inj (by decide) (List.append_cancel_left hrest)).1.symm

end SyntaxError

/-- Each token of a text begins at a character of its own, behind the tokens before it. -/
theorem positions_tokenize (text : String) :
    (tokenize text).Pairwise (fun s t => s.position < t.position) ∧
      ∀ t ∈ tokenize text, ∃ p : Nat, t.position = p := by
  obtain ⟨spans, htokens, hapart, hmarks, _⟩ :=
    (Partition.of_tokens 0 text.toList).exists_spans [] rfl
  rw [tokenize_eq_lexing, ← htokens]
  refine ⟨List.pairwise_map.mpr (hapart.imp_of_mem fun ha hb hle => ?_), fun t ht => ?_⟩
  · have hstart := (hmarks _ ha).2.start_lt_stop
    rw [(hmarks _ ha).2.position, (hmarks _ hb).2.position]
    omega
  · obtain ⟨s, hs, rfl⟩ := List.mem_map.mp ht
    exact ⟨s.start, (hmarks s hs).2.position⟩

/-- Only the first token of a text can be at its first character. -/
theorem position_pos {text : String} {t : Token} {i : Nat} (hi : 0 < i)
    (ht : (tokenize text)[i]? = some t) : 0 < t.position := by
  obtain ⟨hpairwise, hnat⟩ := positions_tokenize text
  obtain ⟨hlt, hget⟩ := List.getElem?_eq_some_iff.mp ht
  have hfirst : 0 < (tokenize text).length := Nat.lt_trans hi hlt
  obtain ⟨p, hp⟩ := hnat _ (List.getElem_mem hfirst)
  have hbefore := List.pairwise_iff_getElem.mp hpairwise 0 i hfirst hlt hi
  rw [hp, hget] at hbefore
  omega

namespace Line
variable {text : String} {d : Int} {e e' : SyntaxError} {t : Token} {j k : Nat}

/-- The message of a text is not that of an error at a token of it if the token is counted without
the first `k` tokens of the text: the token with this number stands before the other. -/
theorem message_ne_of_missing (hd : 1 ≤ d) (h : parse text d = .error (.rejected e)) (hk : 0 < k)
    (hj : e'.index = j) (ht : (tokenize text)[k + j]? = some t) (hp : e'.position = t.position) :
    e.message ≠ e'.message := by
  intro hmessage
  obtain ⟨taken, rest, _, hts, hlocates⟩ :=
    exists_locates_of_rejected (tokenize_wellSpelled text) hd h
  obtain ⟨hindex, hposition⟩ := SyntaxError.place_of_message_eq hmessage hlocates.index hj
  obtain ⟨hpairwise, hnat⟩ := positions_tokenize text
  obtain ⟨hlt, hget⟩ := List.getElem?_eq_some_iff.mp ht
  have hj' : j < (tokenize text).length := by omega
  have hhead : rest.head? = some (tokenize text)[j] := by
    rw [List.head?_eq_getElem?, ← List.getElem?_eq_getElem hj', hts, ← hindex,
      List.getElem?_append_right (Nat.le_refl _), Nat.sub_self]
  obtain ⟨p, hpos⟩ := hnat _ (List.getElem_mem hj')
  obtain ⟨q, hpos'⟩ := hnat _ (List.getElem_mem hlt)
  have hsame := hposition p q ((hlocates.position _ hhead).trans hpos) (by rw [hp, ← hget, hpos'])
  have hbefore := List.pairwise_iff_getElem.mp hpairwise j (k + j) hj' hlt (by omega)
  omega

end Line
end ShellGrammar
