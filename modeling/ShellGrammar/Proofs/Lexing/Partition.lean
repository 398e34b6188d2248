import ShellGrammar.Proofs.Lexing.Agreement
import ShellGrammar.Proofs.Lexing.Extent
import ShellGrammar.Proofs.Lexing.Separation

/-!
Tokens partition the text. A text is a sequence of gaps and sources: gaps hold blanks and line
continuations only, and each source is scanned by itself as the one token that it is the source of.
The spans of the tokens are read off this sequence.
-/
namespace ShellGrammar.Lexing
open Text
variable {cs rest gap : List Char} {pos : Nat} {t : Token} {ts : List Token}

/-- Blanks and line continuations in any order. -/
inductive Gap : List Char → Prop
  | nil : Gap []
  | blank {c : Char} {cs : List Char} : isBlank c = true → Gap cs → Gap (c :: cs)
  | continuation {cs : List Char} : Gap cs → Gap ('\\' :: '\n' :: cs)

namespace Gap

theorem append {as bs : List Char} (h : Gap as) (k : Gap bs) : Gap (as ++ bs) := by
  induction h with
  | nil => exact k
  | blank hc _ ih => exact .blank hc ih
  | continuation _ ih => exact .continuation ih

/-- Every character of a gap is blank or the backslash of a line continuation. -/
theorem getElem? (h : Gap cs) : ∀ {i : Nat} {c : Char}, cs[i]? = some c →
    isBlank c = true ∨ c = '\\' ∧ cs[i + 1]? = some '\n' := by
  induction h with
  | nil =>
      intro i c hi
      cases hi
  | blank hb _ ih =>
      intro i c hi
      cases i with
      | zero =>
          cases hi
          exact .inl hb
      | succ i => exact ih hi
  | continuation _ ih =>
      intro i c hi
      match i with
      | 0 =>
          cases hi
          exact .inr ⟨rfl, rfl⟩
      | 1 =>
          cases hi
          exact .inl (by decide)
      | i + 2 => exact ih hi

/-- The same for a gap in the midst of a text. -/
theorem getElem?_append (h : Gap gap) {before after : List Char} {i : Nat} {c : Char}
    (hle : before.length ≤ i) (hlt : i < before.length + gap.length)
    (hc : (before ++ (gap ++ after))[i]? = some c) :
    isBlank c = true ∨ c = '\\' ∧ (before ++ (gap ++ after))[i + 1]? = some '\n' := by
  rw [List.getElem?_append_right hle, List.getElem?_append_left (by omega)] at hc
  refine (h.getElem? hc).imp_right fun ⟨he, hn⟩ => ⟨he, ?_⟩
  have hnext : i - before.length + 1 < gap.length := (List.getElem?_eq_some_iff.mp hn).1
  rw [List.getElem?_append_right (by omega), Nat.succ_sub hle,
    List.getElem?_append_left hnext, hn]

/-- A word that begins in a gap has no text and ends in the gap. -/
theorem word (h : Gap cs) : (word cs).1 = none ∧ Gap (word cs).2 := by
  induction h with
  | nil => exact ⟨by rw [word_of_none rfl], by rw [word_of_none rfl]; exact .nil⟩
  | @blank c cs hc h _ =>
      rw [word_of_none (part?_blank hc cs)]
      exact ⟨rfl, .blank hc h⟩
  | @continuation cs _ ih =>
      rw [word_of_some (IsPart.continuation cs).part?]
      exact ⟨by rw [ih.1]; rfl, ih.2⟩

/-- A gap has no tokens. -/
theorem tokens (h : Gap cs) (pos : Nat) : tokens pos cs = [] := by
  fun_induction Lexing.tokens pos cs with
  | case1 => rfl
  | case2 pos c cs hb ih =>
      cases h with
      | blank _ h => exact ih h
      | continuation => exact absurd hb (by decide)
  | case3 pos c cs hb kind size hs ih =>
      cases h with
      | blank hc _ => exact absurd hc hb
      | continuation => cases hs
  | case4 pos c cs hb hs ih =>
      obtain ⟨htext, hrest⟩ := h.word
      rw [htext, ih hrest]
      rfl

end Gap

/-- Words without text are made of line continuations. -/
theorem gap_of_word (htext : (word cs).1 = none) (hrest : (word cs).2 = []) : Gap cs := by
  fun_induction word cs with
  | case1 cs h =>
      cases hrest
      exact .nil
  | case2 cs piece middle h text rest hr ih =>
      simp only [hr] at ih
      cases piece with
      | some piece => cases text <;> cases htext
      | none =>
          have hmiddle : Gap middle := ih (by cases text <;> trivial) hrest
          cases isPart_of_part? h with
          | continuation => exact .continuation hmiddle

/-- The text that a token comes from: scanned by itself it is this token and no other, it is at
least as long as the text of the token, and without quotes and backslashes it is that very text. -/
structure Source (source : List Char) (t : Token) : Prop where
  ne_nil : source ≠ []
  alone : tokenize (String.ofList source) = [{ t with position := 0 }]
  length_le : t.text.length ≤ source.length
  unquoted : '\'' ∉ source → '"' ∉ source → '\\' ∉ source →
    source = t.text.toList ∧ ∀ c ∈ source, isBlank c = false

theorem symbol?_take {kind : Token.Kind} {size : Nat} (h : symbol? cs = some (kind, size)) :
    symbol? (cs.take size) = some (kind, size) ∧ ∀ c ∈ cs.take size, isSymbol c = true := by
  unfold symbol? at h
  split at h <;> cases h <;> exact ⟨rfl, by simp [isSymbol]⟩

theorem source_symbol {kind : Token.Kind} {size : Nat} (h : symbol? cs = some (kind, size)) :
    Source (cs.take size) ⟨String.ofList (cs.take size), kind, pos⟩ := by
  obtain ⟨hpos, hle⟩ := symbol?_size_pos h
  obtain ⟨hs, hsymbol⟩ := symbol?_take h
  have hlen : (cs.take size).length = size := List.length_take_of_le hle
  obtain ⟨d, ds, hds⟩ : ∃ d ds, cs.take size = d :: ds :=
    List.exists_cons_of_length_pos (by omega)
  refine ⟨by simp [hds], ?_, by simp, fun _ _ _ => ⟨by simp, fun c hc => ?_⟩⟩
  · have hd : isBlank d = false := isBlank_of_isSymbol (hsymbol d (by simp [hds]))
    rw [tokenize_eq_lexing, String.toList_ofList]
    rw [hds] at hs hlen ⊢
    rw [tokens_symbol hd hs, ← hlen, List.take_length, List.drop_length, tokens_nil]
    rfl
  · exact isBlank_of_isSymbol (hsymbol c hc)

theorem source_word {c : Char} {text : List Char} (hb : isBlank c = false)
    (hs : isSymbol c = false) (hw : word (c :: cs) = (some text, []))
    (hlen : text.length ≤ (c :: cs).length) :
    Source (c :: cs) ⟨String.ofList text, .word, pos⟩ := by
  have hnone : symbol? (c :: cs) = none := by
    rw [← Option.not_isSome_iff_eq_none, isSome_symbol?, hs]
    exact Bool.false_ne_true
  refine ⟨List.cons_ne_nil c cs, ?_, by simpa using hlen, fun hq hd he => ?_⟩
  · rw [tokenize_eq_lexing, String.toList_ofList, tokens_word hb hnone, hw, tokens_nil]
    rfl
  · have hunquoted := word_unquoted hq hd he (by rw [hw])
    rw [hw] at hunquoted
    exact ⟨by simpa using hunquoted.1.symm, hunquoted.2⟩

/-- The text ahead of a position is a sequence of gaps and the sources of these tokens. -/
inductive Partition : Nat → List Char → List Token → Prop
  | last {pos : Nat} {gap : List Char} : Gap gap → Partition pos gap []
  | token {pos : Nat} {gap source rest : List Char} {t : Token} {ts : List Token} :
      Gap gap → Source source t → t.position = (pos + gap.length : Nat) →
        Partition (pos + gap.length + source.length) rest ts →
          Partition pos (gap ++ (source ++ rest)) (t :: ts)

namespace Partition

/-- A gap in front belongs to the first gap. -/
theorem gap_append (hg : Gap gap) (h : Partition (pos + gap.length) cs ts) :
    Partition pos (gap ++ cs) ts := by
  cases h with
  | last hfirst => exact .last (hg.append hfirst)
  | @token _ first source rest t ts hfirst hsource ht h =>
      rw [← List.append_assoc]
      refine .token (hg.append hfirst) hsource ?_ ?_
      · rw [ht, List.length_append, Nat.add_assoc]
      · rwa [List.length_append, ← Nat.add_assoc]

theorem token_append {source : List Char} (hs : Source source t) (ht : t.position = (pos : Nat))
    (h : Partition (pos + source.length) rest ts) : Partition pos (source ++ rest) (t :: ts) := by
  rw [← List.nil_append (source ++ rest)]
  exact .token .nil hs ht h

/-- The tokens of a text partition it. -/
theorem of_tokens (pos : Nat) (cs : List Char) : Partition pos cs (tokens pos cs) := by
  fun_induction tokens pos cs with
  | case1 => exact .last .nil
  | case2 pos c cs hb ih => exact gap_append (.blank hb .nil : Gap [c]) ih
  | case3 pos c cs hb kind size hs ih =>
      have hlen : ((c :: cs).take size).length = size :=
        List.length_take_of_le (symbol?_size_pos hs).2
      rw [← hlen] at ih
      have h := token_append (source_symbol hs) rfl ih
      rwa [hlen, List.take_append_drop] at h
  | case4 pos c cs hb hs ih =>
      simp only [Bool.not_eq_true] at hb
      have hc : isSymbol c = false := by simp [← isSome_symbol? c cs, hs]
      have hne := word_rest_lt (part?_ne_none hb hs)
      obtain ⟨taken, hcs, hlen, hword⟩ := word_extent (c :: cs)
      generalize word (c :: cs) = w at *
      obtain ⟨text, rest⟩ := w
      simp only at hcs hlen hword hne ih ⊢
      have hpos : (c :: cs).length - rest.length = taken.length := by
        rw [hcs, List.length_append, Nat.add_sub_cancel]
      rw [hpos] at ih ⊢
      rw [hcs]
      cases text with
      | none => exact gap_append (gap_of_word (by rw [hword]) (by rw [hword])) ih
      | some text =>
          cases taken with
          | nil =>
              rw [hcs] at hne
              exact absurd hne (Nat.lt_irrefl _)
          | cons d taken =>
              cases hcs
              exact token_append (source_word hb hc hword hlen) rfl ih

end Partition

/-- Only a gap has no tokens. -/
theorem tokens_eq_nil_iff : tokens pos cs = [] ↔ Gap cs := by
  refine ⟨fun h => ?_, fun h => h.tokens pos⟩
  have hp := Partition.of_tokens pos cs
  rw [h] at hp
  cases hp with
  | last hg => exact hg

/-- A token with the offset at which its source ends. -/
structure Span where
  token : Token
  stop : Nat

namespace Span

def start (s : Span) : Nat := s.token.position.toNat

/-- What the text holds from the first character of the span to the last. -/
def slice (s : Span) (cs : List Char) : List Char := (cs.drop s.start).take (s.stop - s.start)

def covers (s : Span) (i : Nat) : Prop := s.start ≤ i ∧ i < s.stop

/-- The span lies in the text and its slice is the source of its token. -/
structure Marks (s : Span) (cs : List Char) : Prop where
  position : s.token.position = s.start
  start_lt_stop : s.start < s.stop
  stop_le : s.stop ≤ cs.length
  source : Source (s.slice cs) s.token

theorem marks_of_source {before source after : List Char} (hs : Source source t)
    (ht : t.position = (before.length : Nat)) :
    Marks ⟨t, before.length + source.length⟩ (before ++ (source ++ after)) := by
  have hstart : start ⟨t, before.length + source.length⟩ = before.length := by
    rw [start, ht, Int.toNat_natCast]
  have hpos : 0 < source.length := List.length_pos_iff.mpr hs.ne_nil
  have hslice :
      slice ⟨t, before.length + source.length⟩ (before ++ (source ++ after)) = source := by
    rw [slice, hstart, List.drop_left, Nat.add_sub_cancel_left, List.take_left]
  refine ⟨by rw [hstart, ht], ?_, ?_, hslice.symm ▸ hs⟩
  · rw [hstart]
    exact Nat.lt_add_of_pos_right hpos
  · simp only [List.length_append]
    omega

end Span

/-- The spans of a partition, in a text of which it is the part from `pos` onwards. -/
theorem Partition.exists_spans (h : Partition pos cs ts) : ∀ before : List Char,
    before.length = pos → ∃ spans : List Span,
      spans.map Span.token = ts ∧ spans.Pairwise (fun a b => a.stop ≤ b.start) ∧
      (∀ s ∈ spans, pos ≤ s.start ∧ s.Marks (before ++ cs)) ∧
      ∀ i c, pos ≤ i → (before ++ cs)[i]? = some c → (∀ s ∈ spans, ¬ s.covers i) →
        isBlank c = true ∨ c = '\\' ∧ (before ++ cs)[i + 1]? = some '\n' := by
  induction h with
  | @last pos gap hg =>
      rintro before rfl
      refine ⟨[], rfl, .nil, fun s hs => absurd hs List.not_mem_nil, fun i c hi hc _ => ?_⟩
      rw [← List.append_nil gap] at hc ⊢
      have hlt := (List.getElem?_eq_some_iff.mp hc).1
      exact hg.getElem?_append hi (by simpa using hlt) hc
  | @token pos gap source rest t ts hg hs ht _ ih =>
      rintro before rfl
      have hlen : (before ++ gap).length = before.length + gap.length := List.length_append
      obtain ⟨spans, htokens, hapart, hmarks, hfree⟩ :=
        ih (before ++ gap ++ source) (by simp only [List.length_append])
      have hspan : Span.Marks ⟨t, before.length + gap.length + source.length⟩
          (before ++ gap ++ (source ++ rest)) := by
        rw [← hlen] at ht ⊢
        exact Span.marks_of_source hs ht
      have hstart := hspan.position
      rw [ht] at hstart
      simp only [List.append_assoc] at hmarks hfree hspan
      refine ⟨⟨t, _⟩ :: spans, congrArg (t :: ·) htokens,
        .cons (fun s hmem => (hmarks s hmem).1) hapart, ?_, ?_⟩
      · refine List.forall_mem_cons.mpr ⟨⟨by omega, hspan⟩, fun s hmem => ?_⟩
        obtain ⟨hle, hmark⟩ := hmarks s hmem
        exact ⟨by omega, hmark⟩
      · intro i c hi hc hcovers
        obtain ⟨hfirst, hothers⟩ := List.forall_mem_cons.mp hcovers
        by_cases hgap : i < before.length + gap.length
        · exact hg.getElem?_append hi hgap hc
        · have hbehind : before.length + gap.length + source.length ≤ i := by
            refine Nat.le_of_not_lt fun hlt => hfirst ⟨?_, hlt⟩
            omega
          exact hfree i c hbehind hc hothers

/-- The tokens of a text have disjoint spans in their order, each with the source of its token, and
between them there is nothing but blanks and line continuations. -/
theorem tokenize_partition (text : String) :
    ∃ spans : List Span, spans.map Span.token = tokenize text ∧
      spans.Pairwise (fun a b => a.stop ≤ b.start) ∧
      (∀ s ∈ spans, s.Marks text.toList) ∧
      ∀ i c, text.toList[i]? = some c → (∀ s ∈ spans, ¬ s.covers i) →
        isBlank c = true ∨ c = '\\' ∧ text.toList[i + 1]? = some '\n' := by
  obtain ⟨spans, htokens, hapart, hmarks, hfree⟩ :=
    (Partition.of_tokens 0 text.toList).exists_spans [] rfl
  rw [← tokenize_eq_lexing] at htokens
  exact ⟨spans, htokens, hapart, fun s hs => (hmarks s hs).2,
    fun i c hc hcovers => hfree i c (Nat.zero_le i) hc hcovers⟩

end ShellGrammar.Lexing
