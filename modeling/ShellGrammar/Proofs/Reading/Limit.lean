import ShellGrammar.Proofs.Reading.ErrorKind
import ShellGrammar.Proofs.RoundTrip

/-!
A greater limit on nesting. The progress of a line is the same under both limits up to the place
where the smaller one forbids a subshell, and a line that is refused for another reason is refused
there by both. So lines that are read stay as they are, errors that do not come from the limit stay
as they are in every field, and an error from the limit goes away or moves on to a later token.
-/
namespace ShellGrammar
open Reader Progress

namespace Cursor
variable {c c' : Cursor} {f : Fault} {e : SyntaxError}

/-- Only the report on the limit depends on the limit. -/
theorem report_congr (hf : f ≠ .nestingTooDeep) (hpeek : c.peek = c'.peek) :
    c.report f = c'.report f := by
  cases f with
  | nestingTooDeep => exact absurd rfl hf
  | unmet | noCommand | emptyGroup | trailingInput => simp only [report, hpeek]

theorem position_congr (ht : c.tokens = c'.tokens) (he : c.endPosition = c'.endPosition)
    (hi : c.index = c'.index) : c.position = c'.position := by
  simp only [position, peek, rest, ht, he, hi]

theorem eq_outOfTokens_of_position {e : Failure} (h : c.position = .error e) :
    e = .outOfTokens := by
  rw [position] at h
  split at h <;> cases h
  rfl

/-- A syntax error is the report of a fault at the place where the cursor stands. -/
theorem exists_fault_of_failure {reason : Reason} (h : c.failure reason = .rejected e) :
    ∃ f, reason = .fault f ∧ c.position = .ok e.position ∧
      e = ⟨(c.report f).1, (c.report f).2.1, c.peek, c.index, e.position, (c.report f).2.2⟩ := by
  cases reason with
  | build e => cases h
  | fault f =>
      simp only [failure] at h
      split at h
      · next hp =>
        cases h
        exact ⟨f, rfl, hp, rfl⟩
      · next hp =>
        rw [eq_outOfTokens_of_position hp] at h
        cases h

/-- An error is placed where the cursor stands. -/
theorem place_of_failure {reason : Reason} (h : c.failure reason = .rejected e) :
    e.index = c.index ∧ c.position = .ok e.position := by
  obtain ⟨f, _, hposition, he⟩ := exists_fault_of_failure h
  exact ⟨congrArg SyntaxError.index he, hposition⟩

section Apply
variable {α : Type} {r : Reader α}

@[simp] theorem tokens_apply : (c.apply r).2.tokens = c.tokens := by
  rw [apply]
  split <;> rfl

@[simp] theorem endPosition_apply : (c.apply r).2.endPosition = c.endPosition := by
  rw [apply]
  split <;> rfl

theorem place_of_apply (h : (c.apply r).1 = .error (.rejected e)) :
    e.index = (c.apply r).2.index ∧ (c.apply r).2.position = .ok e.position := by
  rw [apply] at h ⊢
  cases hr : r.read c.rest with
  | ok result =>
      rw [hr] at h
      cases h
  | error stop =>
      rw [hr] at h
      exact place_of_failure (Except.error.inj h)

end Apply

end Cursor

namespace SyntaxError
variable {e e' : SyntaxError} {m n : Nat} {taken rest : List Token} {f : Fault}

/-- The limit is in no field of an error but the kind. -/
theorem Locates.eq (h : e.Locates m taken rest f) (h' : e'.Locates n taken rest f)
    (hf : f ≠ .nestingTooDeep) (hp : e.position = e'.position) : e = e' := by
  obtain ⟨c, _, hpeek, hreport⟩ := h.report
  obtain ⟨c', _, hpeek', hreport'⟩ := h'.report
  have hsame := Cursor.report_congr hf (hpeek.trans hpeek'.symm)
  rw [hreport, hreport', Prod.mk.injEq, Prod.mk.injEq] at hsame
  obtain ⟨hkind, hexpected, hnote⟩ := hsame
  cases e
  cases e'
  simp only [SyntaxError.mk.injEq]
  exact ⟨hkind, hexpected, h.found.trans h'.found.symm, h.index.trans h'.index.symm, hp, hnote⟩

theorem Locates.nestingTooDeep_iff (h : e.Locates m taken rest f) :
    (∃ limit, e.kind = .nestingTooDeep limit) ↔ f = .nestingTooDeep := by
  obtain ⟨c, _, _, hreport⟩ := h.report
  have hkind : (c.report f).1 = e.kind := congrArg Prod.fst hreport
  rw [← hkind]
  cases f with
  | nestingTooDeep => simp [Cursor.report]
  | emptyGroup | trailingInput => simp [Cursor.report]
  | unmet | noCommand =>
      simp only [Cursor.report]
      split <;> simp

end SyntaxError

namespace Line
variable {ts : List Token} {d d' : Int} {endPosition : Option Int} {e e' : SyntaxError}

/-- Errors at one token have one position, whatever the limits. -/
theorem position_eq_of_rejected (hd : 1 ≤ d) (hd' : 1 ≤ d')
    (h : ofTokens ts d endPosition = .error (.rejected e))
    (h' : ofTokens ts d' endPosition = .error (.rejected e')) (hi : e.index = e'.index) :
    e.position = e'.position := by
  rw [ofTokens_eq hd, Cursor.parse] at h
  rw [ofTokens_eq hd', Cursor.parse] at h'
  obtain ⟨hindex, hposition⟩ := Cursor.place_of_apply h
  obtain ⟨hindex', hposition'⟩ := Cursor.place_of_apply h'
  rw [hindex, hindex'] at hi
  have hsame := Cursor.position_congr (by simp) (by simp) (Int.ofNat.inj hi)
  rw [hposition, hposition'] at hsame
  exact Except.ok.inj hsame

section Raised
variable (hs : ∀ t ∈ ts, t.WellSpelled) (hd : 1 ≤ d)
include hs hd

theorem ofTokens_ok_of_le {l : Line} (hle : d ≤ d') (h : ofTokens ts d endPosition = .ok l) :
    ofTokens ts d' endPosition = .ok l := by
  have hn := nesting_le_of_ofTokens hs hd h
  exact ofTokens_of_yields hs (by omega) (yields_of_ofTokens hs h) (by omega)

/-- An error that does not come from the limit is the same under a greater limit. -/
theorem ofTokens_rejected_of_le (hle : d ≤ d')
    (h : ofTokens ts d endPosition = .error (.rejected e))
    (hkind : ∀ limit, e.kind ≠ .nestingTooDeep limit) :
    ofTokens ts d' endPosition = .error (.rejected e) := by
  have hd' : 1 ≤ d' := by omega
  obtain ⟨taken, rest, f, hts, hlocates⟩ := exists_locates_of_rejected hs hd h
  obtain ⟨p, hp, hf⟩ := hlocates.refused
  have hreason : f ≠ .nestingTooDeep :=
    mt hlocates.nestingTooDeep_iff.mpr fun ⟨limit, hlimit⟩ => hkind limit hlimit
  have hp' : Reached d'.toNat taken p := run_of_le (by omega) hp
  have hf' : p.Refuses d'.toNat f rest := hf.congr hreason
  cases ofTokens_outcome (ne_nil_of_rejected hd h) hs hd' endPosition with
  | inl hread =>
      obtain ⟨_, _, _, _, haccepts⟩ := hread
      exact absurd (hts ▸ haccepts) (not_accepts_of_refuses hp' hf')
  | inr hrejected =>
      obtain ⟨e', taken', rest', g, he', hts', hlocates'⟩ := hrejected
      obtain ⟨q, hq, hg⟩ := hlocates'.refused
      obtain ⟨rfl, rfl, rfl⟩ := refusal_unique (hts.symm.trans hts') hp' hf' hq hg
      have hposition := position_eq_of_rejected hd hd' h he'
        (hlocates.index.trans hlocates'.index.symm)
      rw [he', hlocates.eq hlocates' hreason hposition]

/-- An error from the limit is gone under a greater limit, which lets one more token pass, or gives
way to one further on. -/
theorem ofTokens_ok_or_index_lt (hlt : d < d')
    (h : ofTokens ts d endPosition = .error (.rejected e))
    (hkind : ∃ limit, e.kind = .nestingTooDeep limit) :
    (∃ l, ofTokens ts d' endPosition = .ok l) ∨
      ∃ e', ofTokens ts d' endPosition = .error (.rejected e') ∧ e.index < e'.index := by
  obtain ⟨taken, rest, f, hts, hlocates⟩ := exists_locates_of_rejected hs hd h
  obtain ⟨p, hp, hf⟩ := hlocates.refused
  cases hlocates.nestingTooDeep_iff.mp hkind
  cases ofTokens_outcome (ne_nil_of_rejected hd h) hs (by omega : 1 ≤ d') endPosition with
  | inl hread =>
      obtain ⟨body, hbody, _⟩ := hread
      exact .inl ⟨_, hbody⟩
  | inr hrejected =>
      obtain ⟨e', taken', rest', g, he', hts', hlocates'⟩ := hrejected
      obtain ⟨q, hq, hg⟩ := hlocates'.refused
      refine .inr ⟨e', he', ?_⟩
      obtain ⟨t, more, rfl, r, hr⟩ := hf.exists_step (depth_le_of_run (Nat.zero_le _) hp)
        (by omega : d.toNat < d'.toNat)
      have hreached : Reached d'.toNat (taken ++ [t]) r := run_snoc (run_of_le (by omega) hp) hr
      have hsplit : taken ++ [t] ++ more = taken' ++ rest' := by
        rw [← hts', hts, List.append_assoc, List.singleton_append]
      have hle := length_le_of_refuses hreached hsplit hq hg
      rw [List.length_append, List.length_singleton] at hle
      rw [hlocates.index, hlocates'.index]
      omega

end Raised

/-- What is read under one limit is read under every limit that its nesting does not exceed. -/
theorem exists_ofTokens_iff {l : Line} (hs : ∀ t ∈ ts, t.WellSpelled)
    (h : ofTokens ts d endPosition = .ok l) (hd' : 1 ≤ d') :
    (∃ m, ofTokens ts d' endPosition = .ok m) ↔ l.node.nesting ≤ d' := by
  have hyields := yields_of_ofTokens hs h
  refine ⟨fun ⟨m, hm⟩ => ?_, fun hn => ⟨l, ofTokens_of_yields hs hd' hyields hn⟩⟩
  rw [Yields.unique hs hyields (yields_of_ofTokens hs hm)]
  exact nesting_le_of_ofTokens hs hd' hm

/-- Under a greater limit a text has the same line or the same error, but for errors from the limit:
these are gone or give way to errors at a later token. A line that is read under one limit is read
under another one if no path down to a leaf of its tree meets more subshells. -/
theorem parse_of_limit_lt (text : String) (hd : 1 ≤ d) (hlt : d < d') :
    (∀ l, parse text d = .ok l → parse text d' = .ok l) ∧
      (∀ e, parse text d = .error (.rejected e) → (∀ limit, e.kind ≠ .nestingTooDeep limit) →
        parse text d' = .error (.rejected e)) ∧
      (∀ e, parse text d = .error (.rejected e) → (∃ limit, e.kind = .nestingTooDeep limit) →
        (∃ l, parse text d' = .ok l) ∨
          ∃ e', parse text d' = .error (.rejected e') ∧ e.index < e'.index) ∧
      ∀ body, parse text d = .ok (.sequence body) → ∀ m, 1 ≤ m → m < d →
        ((∃ l, parse text m = .ok l) ↔
          ∀ path, (Node.sequence body).Path path → path.countP Node.isSubshell ≤ m) := by
  have hs := tokenize_wellSpelled text
  refine ⟨fun l => ofTokens_ok_of_le hs hd (Int.le_of_lt hlt),
    fun e => ofTokens_rejected_of_le hs hd (Int.le_of_lt hlt),
    fun e => ofTokens_ok_or_index_lt hs hd hlt, fun body h m hm _ => ?_⟩
  rw [← Node.nesting_le_iff]
  exact exists_ofTokens_iff hs h hm

/-- Two subshells, one in the other. Where only one is allowed, the second one is refused; the line
`((a))` is read as soon as two are allowed. -/
theorem parse_of_limit_lt_nested :
    let e : SyntaxError := ⟨.nestingTooDeep 1, [.word], some ⟨"(", .lparen, 6⟩, 3, 6,
      "subshells are nested too deep"⟩
    let body : AndOr := .single (.single (.subshell (.single (.single (.subshell
      (.single (.single (.command (.simple ⟨⟨"a"⟩, []⟩ [])))))))))
    (parse "a && ((b" 1 = .error (.rejected e) ∧
        ((∃ l, parse "a && ((b" 2 = .ok l) ∨
          ∃ e', parse "a && ((b" 2 = .error (.rejected e') ∧ e.index < e'.index)) ∧
      parse "((a))" 2 = .ok (.sequence body) ∧ parse "((a))" 3 = .ok (.sequence body) ∧
        ¬ ∃ l, parse "((a))" 1 = .ok l := by
  intro e body
  have hrejected : parse "a && ((b" 1 = .error (.rejected e) := by with_unfolding_all rfl
  have hread : parse "((a))" 2 = .ok (.sequence body) := by with_unfolding_all rfl
  obtain ⟨_, _, hfurther, _⟩ := parse_of_limit_lt "a && ((b" (by decide : (1 : Int) ≤ 1)
    (by decide : (1 : Int) < 2)
  obtain ⟨hsame, _, _, hlimits⟩ := parse_of_limit_lt "((a))" (by decide : (1 : Int) ≤ 2)
    (by decide : (2 : Int) < 3)
  refine ⟨⟨hrejected, hfurther e hrejected ⟨1, rfl⟩⟩, hread, hsame _ hread, ?_⟩
  rw [hlimits body hread 1 (by decide) (by decide), ← Node.nesting_le_iff]
  decide

end Line
end ShellGrammar
