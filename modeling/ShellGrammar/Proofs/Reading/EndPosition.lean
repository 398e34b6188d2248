import ShellGrammar.Proofs.Lexing.Partition
import ShellGrammar.Proofs.Reading.Limit

/-!
Reading tokens without knowing where their text ends. A reader never looks at the end of the text,
so the tree and every field of an error but its position are the same with and without it. The
position at which an error at the end is reported is then found from the last token; since no token
is longer than its source, it lies within the text.
-/
namespace ShellGrammar
open Reader

namespace Cursor

/-- The same cursor with other knowledge of where the text ends. -/
def withEnd (c : Cursor) (endPosition : Option Int) : Cursor := { c with endPosition }

variable {c : Cursor} {e : SyntaxError} {reason : Reason} {endPosition : Option Int} {p : Int}

@[simp] theorem rest_withEnd : (c.withEnd endPosition).rest = c.rest := rfl

/-- The end of the text shows in the position of an error and nowhere else. -/
theorem failure_withEnd (h : c.failure reason = .rejected e)
    (hp : (c.withEnd endPosition).position = .ok p) :
    (c.withEnd endPosition).failure reason = .rejected { e with position := p } := by
  obtain ⟨f, rfl, _, he⟩ := exists_fault_of_failure h
  rw [he, failure]
  simp only [hp]
  rfl

/-- Behind the last token the position is the end of its text, if nothing better is known. -/
theorem position_of_last {last : Token} (hpeek : c.peek = none) (hend : c.endPosition = none)
    (hlast : c.tokens.getLast? = some last) :
    c.position = .ok (last.position + last.text.length) := by
  rw [position, hpeek, hend, hlast]

section Apply
variable {α : Type} {r : Reader α} {a : α}

theorem apply_withEnd_of_ok (h : (c.apply r).1 = .ok a) :
    ((c.withEnd endPosition).apply r).1 = .ok a := by
  rw [apply] at h ⊢
  rw [rest_withEnd]
  cases hr : r.read c.rest with
  | ok result =>
      rw [hr] at h
      exact h
  | error stop =>
      rw [hr] at h
      cases h

theorem exists_failure_of_apply (h : (c.apply r).1 = .error (.rejected e)) :
    ∃ (stopped : Cursor) (reason : Reason), stopped.failure reason = .rejected e ∧
      stopped.tokens = c.tokens ∧ stopped.endPosition = c.endPosition ∧
      ∀ endPosition, ((c.withEnd endPosition).apply r).1 =
        .error ((stopped.withEnd endPosition).failure reason) := by
  rw [apply] at h
  cases hr : r.read c.rest with
  | ok result =>
      rw [hr] at h
      cases h
  | error stop =>
      rw [hr] at h
      refine ⟨c.moveTo stop.rest stop.opened, stop.reason, Except.error.inj h, rfl, rfl, ?_⟩
      intro endPosition
      rw [apply, rest_withEnd, hr]
      rfl

/-- A cursor that knows another end is stopped by the same error, but for its position. At a token
the position is that of the token in both cases; behind the last token a cursor that knows of no end
takes the end of the token's text. -/
theorem apply_withEnd_of_rejected (hne : c.tokens ≠ [])
    (h : (c.apply r).1 = .error (.rejected e)) (endPosition : Option Int) :
    ∃ p, ((c.withEnd endPosition).apply r).1 = .error (.rejected { e with position := p }) ∧
      (e.found ≠ none → e.position = p) ∧
      (e.found = none → c.endPosition = none →
        ∃ last, c.tokens.getLast? = some last ∧ e.position = last.position + last.text.length) := by
  obtain ⟨stopped, reason, hfailure, htokens, hend, hwith⟩ := exists_failure_of_apply h
  obtain ⟨_, _, hposition, he⟩ := exists_fault_of_failure hfailure
  have hfound : e.found = stopped.peek := congrArg SyntaxError.found he
  rw [← htokens] at hne ⊢
  obtain ⟨p, hp, hat⟩ := (stopped.withEnd endPosition).exists_position hne
  obtain ⟨q, hq, hat'⟩ := stopped.exists_position hne
  refine ⟨p, by rw [hwith, failure_withEnd hfailure hp], fun hsome => ?_, fun hnone hunknown => ?_⟩
  · obtain ⟨t, ht⟩ := Option.ne_none_iff_exists'.mp hsome
    rw [hfound] at ht
    rw [hat t ht, ← hat' t ht]
    exact Except.ok.inj (hposition.symm.trans hq)
  · refine ⟨stopped.tokens.getLast hne, List.getLast?_eq_some_getLast hne, ?_⟩
    rw [hfound] at hnone
    have hlast := position_of_last hnone (hend.trans hunknown) (List.getLast?_eq_some_getLast hne)
    exact Except.ok.inj (hposition.symm.trans hlast)

end Apply
end Cursor

namespace Lexing

/-- No token reaches beyond its text. -/
theorem position_add_length_le {text : String} {t : Token} (h : t ∈ tokenize text) :
    t.position + t.text.length ≤ text.length := by
  obtain ⟨spans, htokens, _, hmarks, _⟩ :=
    (Partition.of_tokens 0 text.toList).exists_spans [] rfl
  rw [tokenize_eq_lexing, ← htokens] at h
  obtain ⟨s, hs, rfl⟩ := List.mem_map.mp h
  have hmark := (hmarks s hs).2
  have hstop : s.stop ≤ text.toList.length := hmark.stop_le
  have hlength := hmark.source.length_le
  rw [Span.slice, List.length_take, List.length_drop] at hlength
  have hstart := hmark.start_lt_stop
  rw [hmark.position, ← String.length_toList (s := text)]
  omega

end Lexing

namespace Line
variable {ts : List Token} {d : Int}

theorem ofTokens_eq_apply (hd : 1 ≤ d) (endPosition : Option Int) :
    ofTokens ts d endPosition =
      ((Cursor.withEnd ⟨ts, d.toNat, none, 0, 0⟩ endPosition).apply (line d.toNat)).1 := by
  rw [ofTokens_eq hd]
  rfl

/-- Without the end of the text its tokens are read as the same line or rejected with the same error
but for the position. Errors at a token are at the token; for the others the position is at or
behind the last token and not beyond the text. -/
theorem ofTokens_without_end (text : String) (hne : tokenize text ≠ []) (hd : 1 ≤ d) :
    (∃ l, ofTokens (tokenize text) d none = .ok l ∧
        ofTokens (tokenize text) d (some text.length) = .ok l) ∨
      ∃ e e', ofTokens (tokenize text) d none = .error (.rejected e) ∧
        ofTokens (tokenize text) d (some text.length) = .error (.rejected e') ∧
        e.kind = e'.kind ∧ e.expected = e'.expected ∧ e.found = e'.found ∧ e.index = e'.index ∧
        e.note = e'.note ∧ (e.found ≠ none → e.position = e'.position) ∧
        (e.found = none → ∃ last, (tokenize text).getLast? = some last ∧
          last.position ≤ e.position ∧ e.position ≤ text.length) := by
  have hs := tokenize_wellSpelled text
  generalize hts : tokenize text = ts at hne hs ⊢
  cases ofTokens_ok_or_rejected hs hd none with
  | inl hread =>
      obtain ⟨l, hl, _⟩ := hread
      refine .inl ⟨l, hl, ?_⟩
      rw [ofTokens_eq_apply hd] at hl ⊢
      exact Cursor.apply_withEnd_of_ok hl
  | inr hrejected =>
      obtain ⟨e, he⟩ := hrejected
      have hparse := he
      rw [ofTokens_eq_apply hd] at hparse
      obtain ⟨p, hp, hat, hbehind⟩ :=
        Cursor.apply_withEnd_of_rejected hne hparse (some text.length)
      refine .inr ⟨e, { e with position := p }, he, ?_, rfl, rfl, rfl, rfl, rfl, hat,
        fun hnone => ?_⟩
      · rw [ofTokens_eq_apply hd]
        exact hp
      · obtain ⟨last, hlast, hposition⟩ := hbehind hnone rfl
        have hmem : last ∈ tokenize text := hts ▸ List.mem_of_getLast? hlast
        have hle := Lexing.position_add_length_le hmem
        exact ⟨last, hlast, by omega, by omega⟩

/-- The open subshell of `(a "b  c"` is missed behind the quoted word, which is shorter than its
source. -/
theorem ofTokens_without_end_quoted :
    let e : SyntaxError := ⟨.unexpectedEnd, [.rparen], none, 3, 7, "unexpected end of input"⟩
    tokenize "(a \"b  c\"" ≠ [] ∧
      ofTokens (tokenize "(a \"b  c\"") 1 none = .error (.rejected e) ∧
      ofTokens (tokenize "(a \"b  c\"") 1 (some 9) =
        .error (.rejected { e with position := 9 }) ∧ e.position ≤ 9 := by
  intro e
  have hne : tokenize "(a \"b  c\"" ≠ [] := by decide +kernel
  have hloose : ofTokens (tokenize "(a \"b  c\"") 1 none = .error (.rejected e) := by
    with_unfolding_all rfl
  have hexact : ofTokens (tokenize "(a \"b  c\"") 1 (some 9) =
      .error (.rejected { e with position := 9 }) := by
    with_unfolding_all rfl
  refine ⟨hne, hloose, hexact, ?_⟩
  cases ofTokens_without_end "(a \"b  c\"" hne (by decide : (1 : Int) ≤ 1) with
  | inl hread =>
      obtain ⟨l, hl, _⟩ := hread
      rw [hloose] at hl
      cases hl
  | inr hrejected =>
      obtain ⟨e', _, he, _, _, _, _, _, _, _, hbehind⟩ := hrejected
      rw [hloose] at he
      cases he
      obtain ⟨last, _, _, hle⟩ := hbehind rfl
      exact hle

end Line
end ShellGrammar
