import ShellGrammar.Proofs.Lexing.Feeding

/-!
What calls make of a scanner. Whatever a new scanner has been called for, it stands within a text,
in one of the shapes of `Within`, or behind the end of one. Each shape is listed with what is known
of its fields. Within a text every character is read without a fault and leads to a scanner within
the text again; from there the end of the text is reached without a fault.
-/
namespace ShellGrammar.Scanner
open Text Lexing
variable {s t : Scanner} {c q : Char} {p n : Nat} {text : Option (List Char)}

/-- What a scanner can be asked to do. -/
inductive Call
  | feed (text : String)
  | finish
  | resetState
  | reset
  deriving DecidableEq, Repr

/-- The scanner that a call leaves, also where the call raises a fault. -/
def act (s : Scanner) : Call → Scanner
  | .feed text => (s.feed text.toList).scanner
  | .finish => s.finish.scanner
  | .resetState => s.resetState
  | .reset => s.reset

def after (s : Scanner) (calls : List Call) : Scanner := calls.foldl act s

/-- The scanners between two characters of a text, or before the first one. -/
inductive Within : Scanner → Prop
  | ready {p n : Nat} (hp : p ≤ n) : Within (ready p n)
  | afterOperator {q : Char} {p n : Nat} (hq : q = '|' ∨ q = '>' ∨ q = '<' ∨ q = '&')
      (hp : p ≤ n) : Within (afterOperator q p n)
  | withinWord {p n : Nat} (text : Option (List Char)) (escape : Bool) (hp : p ≤ n) :
      Within (withinWord p text escape n)
  | withinQuotes {q : Char} {p n : Nat} {escape : Bool} (text : List Char)
      (hq : q = '"' ∨ q = '\'' ∧ escape = false) (hp : p ≤ n) :
      Within (withinQuotes q p text escape n)

/-- A text has ended; `quote` is the one that was left open. -/
def finished (quote : Option Char) (n : Nat) : Scanner :=
  ⟨.final, .blank n, false, quote.isSome, quote, n⟩

/-- The scanners that calls lead to. -/
def Standing (s : Scanner) : Prop := s.Within ∨ ∃ quote n, s = finished quote n

theorem within_new : Within new := new_eq_ready ▸ .ready (Nat.le_refl 0)

theorem Within.mode_ne_final (h : s.Within) : s.mode ≠ .final := by
  cases h <;> nofun

/-- The scanner reads the character and stands within the text again. -/
def Proceeds (s : Scanner) (c : Char) : Prop := ∃ t ts, s.next c = .ok (t, ts) ∧ t.Within

/-- The scanners proceed alike if they differ in nothing but in the tokens completed before. -/
theorem Proceeds.of_map {ts : List Token} (h : t.Proceeds c)
    (hs : s.next c = (t.next c).map fun r => (r.1, ts ++ r.2)) : s.Proceeds c := by
  obtain ⟨u, us, hu, hwithin⟩ := h
  rw [hu] at hs
  exact ⟨u, _, hs, hwithin⟩

theorem proceeds_withinWord_bare (hb : isBlank c = false) (hs : isSymbol c = false) (hp : p ≤ n) :
    (withinWord p text false n).Proceeds c := by
  by_cases hq : c = '\''
  · exact ⟨_, _, next_withinWord_quote (.inl hq), .withinQuotes _ (.inr ⟨hq, rfl⟩) (by omega)⟩
  by_cases hd : c = '"'
  · exact ⟨_, _, next_withinWord_quote (.inr hd), .withinQuotes _ (.inl hd) (by omega)⟩
  by_cases he : c = '\\'
  · subst he
    exact ⟨_, _, next_withinWord_backslash, .withinWord _ _ (by omega)⟩
  · exact ⟨_, _, next_withinWord_bare hb hs hq hd he, .withinWord _ _ (by omega)⟩

theorem proceeds_ready : (ready p n).Proceeds c := by
  cases hb : isBlank c with
  | true => exact ⟨_, _, next_ready_blank hb, .ready (by omega)⟩
  | false =>
      cases hs : isSymbol c with
      | false =>
          have hword : (withinWord n none false n).Proceeds c :=
            proceeds_withinWord_bare hb hs (Nat.le_refl n)
          obtain ⟨t, ts, hnext, ht⟩ := hword
          exact ⟨t, ts, (next_ready_word hb hs).trans hnext, ht⟩
      | true =>
          simp only [isSymbol, List.contains_eq_mem, decide_eq_true_eq, List.mem_cons,
            List.not_mem_nil, or_false] at hs
          rcases hs with rfl | rfl | hs
          · exact ⟨_, _, next_ready_lparen, .ready (by omega)⟩
          · exact ⟨_, _, next_ready_rparen, .ready (by omega)⟩
          · have hop : c = '|' ∨ c = '>' ∨ c = '<' ∨ c = '&' := by
              rcases hs with rfl | rfl | rfl | rfl <;> decide
            exact ⟨_, _, next_ready_operator hop, .afterOperator hop (by omega)⟩

theorem proceeds_withinWord {escape : Bool} (hp : p ≤ n) :
    (withinWord p text escape n).Proceeds c := by
  cases escape with
  | true =>
      by_cases hc : c = '\n'
      · subst hc
        exact ⟨_, _, next_withinWord_continued, .withinWord _ _ (by omega)⟩
      · exact ⟨_, _, next_withinWord_escaped hc, .withinWord _ _ (by omega)⟩
  | false =>
      by_cases h : isBlank c = true ∨ isSymbol c = true
      · exact proceeds_ready.of_map (next_withinWord_break h)
      · simp only [not_or, Bool.not_eq_true] at h
        exact proceeds_withinWord_bare h.1 h.2 hp

theorem proceeds_withinQuotes {escape : Bool} {cs : List Char}
    (hq : q = '"' ∨ q = '\'' ∧ escape = false) (hp : p ≤ n) :
    (withinQuotes q p cs escape n).Proceeds c := by
  rcases hq with rfl | ⟨rfl, rfl⟩
  · cases escape with
    | true => exact ⟨_, _, next_withinQuotes_escaped, .withinQuotes _ (.inl rfl) (by omega)⟩
    | false =>
        by_cases hd : c = '"'
        · subst hd
          exact ⟨_, _, next_withinQuotes_close (.inr rfl), .withinWord _ _ (by omega)⟩
        by_cases he : c = '\\'
        · subst he
          exact ⟨_, _, next_withinQuotes_backslash, .withinQuotes _ (.inl rfl) (by omega)⟩
        · exact ⟨_, _, next_withinQuotes_double hd he, .withinQuotes _ (.inl rfl) (by omega)⟩
  · by_cases hc : c = '\''
    · subst hc
      exact ⟨_, _, next_withinQuotes_close (.inl rfl), .withinWord _ _ (by omega)⟩
    · exact ⟨_, _, next_withinQuotes_single hc, .withinQuotes _ (.inr ⟨rfl, rfl⟩) (by omega)⟩

theorem proceeds_afterOperator (hq : q = '|' ∨ q = '>' ∨ q = '<' ∨ q = '&') :
    (afterOperator q p n).Proceeds c := by
  by_cases hc : c = q
  · obtain ⟨kind, hkind⟩ :
        ∃ kind, Glyph.doubleOperators.lookup (q.toString.push c) = some kind := by
      subst hc
      rcases hq with rfl | rfl | rfl | rfl <;> exact ⟨_, rfl⟩
    exact ⟨_, _, next_afterOperator_pair hkind, .ready (by omega)⟩
  · obtain ⟨kind, hkind⟩ : ∃ kind, Glyph.singleOperators.lookup q.toString = some kind := by
      rcases hq with rfl | rfl | rfl | rfl <;> exact ⟨_, rfl⟩
    have hsingle : (afterOperator q p n).next c =
        ((ready n n).next c).map fun r => (r.1, [⟨q.toString, kind, p⟩] ++ r.2) :=
      next_afterOperator_single hkind hc
    exact proceeds_ready.of_map hsingle

theorem Within.proceeds (h : s.Within) (c : Char) : s.Proceeds c := by
  cases h with
  | ready => exact proceeds_ready
  | afterOperator hq => exact proceeds_afterOperator hq
  | withinWord _ _ hp => exact proceeds_withinWord hp
  | withinQuotes _ hq hp => exact proceeds_withinQuotes hq hp

theorem Within.feed (h : s.Within) (cs : List Char) :
    (s.feed cs).fault = none ∧ (s.feed cs).scanner.Within := by
  induction cs generalizing s with
  | nil => exact ⟨rfl, h⟩
  | cons c cs ih =>
      obtain ⟨t, ts, hnext, ht⟩ := h.proceeds c
      simp only [Scanner.feed, hnext]
      exact ih ht

theorem Within.finish (h : s.Within) :
    s.finish.fault = none ∧ ∃ quote, s.finish.scanner = finished quote s.offset := by
  cases h with
  | ready => exact ⟨rfl, none, rfl⟩
  | afterOperator hq => rcases hq with rfl | rfl | rfl | rfl <;> exact ⟨rfl, none, rfl⟩
  | withinWord _ escape => cases escape <;> exact ⟨rfl, none, rfl⟩
  | @withinQuotes q _ _ escape => cases escape <;> exact ⟨rfl, some q, rfl⟩

/-- Behind the end of a text nothing is left to be completed. -/
theorem finish_finished (quote : Option Char) (n : Nat) :
    (finished quote n).finish = ⟨finished quote n, [], none⟩ := rfl

theorem Standing.act (h : s.Standing) (call : Call) : (s.act call).Standing := by
  cases call with
  | resetState | reset => exact .inl (.ready (Nat.le_refl _))
  | feed text =>
      rcases h with h | ⟨quote, n, rfl⟩
      · exact .inl (h.feed text.toList).2
      · refine .inr ⟨quote, n, ?_⟩
        change ((finished quote n).feed text.toList).scanner = finished quote n
        cases text.toList with
        | nil => rfl
        | cons c cs => rw [feed_final rfl]
  | finish =>
      rcases h with h | ⟨quote, n, rfl⟩
      · obtain ⟨_, quote, hfinish⟩ := h.finish
        exact .inr ⟨quote, s.offset, hfinish⟩
      · exact .inr ⟨quote, n, rfl⟩

theorem standing_after (h : s.Standing) (calls : List Call) : (s.after calls).Standing := by
  induction calls generalizing s with
  | nil => exact h
  | cons call calls ih => exact ih (h.act call)

end ShellGrammar.Scanner
