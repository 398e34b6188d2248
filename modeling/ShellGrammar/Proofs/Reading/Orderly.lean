import ShellGrammar.Proofs.Reading.Bounds
import ShellGrammar.Proofs.Reading.Consumption
import ShellGrammar.Proofs.Reading.Limit

/-!
What a reader leaves of a cursor. Where it succeeds, every subshell that it has entered is left and
the cursor has moved on; where it is refused, the cursor stays at the place of the error, inside the
subshells that were open there. A reader that keeps to the limit and takes a token goes on in this
orderly way from anywhere, even from behind the last token; only where there are no tokens and the
end of the input is unknown, an error has no position.
-/
namespace ShellGrammar.Cursor
open Reader
variable {α β : Type} {c : Cursor}

@[simp] theorem maxDepth_apply {r : Reader α} : (c.apply r).2.maxDepth = c.maxDepth := by
  rw [apply]
  split <;> rfl

theorem rest_subset (c : Cursor) : c.rest ⊆ c.tokens := List.drop_subset _ _

theorem position_eq_error_iff {f : Failure} :
    c.position = .error f ↔ f = .outOfTokens ∧ c.tokens = [] ∧ c.endPosition = none := by
  refine ⟨fun h => ?_, ?_⟩
  · refine ⟨eq_outOfTokens_of_position h, ?_⟩
    rw [position] at h
    split at h <;> cases h
    next hend hlast => exact ⟨List.getLast?_eq_none_iff.mp hlast, hend⟩
  · rintro ⟨rfl, htokens, hend⟩
    have hpeek : c.peek = none := by rw [peek, rest, htokens, List.drop_nil]; rfl
    simp only [position, hpeek, hend, htokens, List.getLast?_nil]

/-- What a call leaves of the cursor `c`, and when it fails; `Q` holds of its results. -/
structure Orderly (c : Cursor) (Q : α → Prop) (called : Except Failure α × Cursor) : Prop where
  tokens : called.2.tokens = c.tokens
  maxDepth : called.2.maxDepth = c.maxDepth
  endPosition : called.2.endPosition = c.endPosition
  depth : called.2.depth ≤ c.maxDepth
  ok : ∀ a, called.1 = .ok a → called.2.depth = c.depth ∧ c.index < called.2.index ∧ Q a
  rejected : ∀ e, called.1 = .error (.rejected e) →
    called.2.index = e.index ∧ c.index ≤ called.2.index ∧ c.depth ≤ called.2.depth
  outOfTokens : called.1 = .error .outOfTokens ↔ c.tokens = [] ∧ c.endPosition = none
  error : (∀ t ∈ c.tokens, t.WellSpelled) → ∀ f, called.1 = .error f →
    f = .outOfTokens ∨ ∃ e, f = .rejected e

/-- A fault is reported as a syntax error unless there is nothing that could tell its position. -/
theorem failure_fault (c : Cursor) (f : Fault) :
    (c.failure (.fault f) = .outOfTokens ↔ c.tokens = [] ∧ c.endPosition = none) ∧
      (c.failure (.fault f) = .outOfTokens ∨ ∃ e, c.failure (.fault f) = .rejected e) := by
  cases hp : c.position with
  | ok position =>
      have hrejected : ∃ e, c.failure (.fault f) = .rejected e := by
        simp only [failure, hp]
        exact ⟨_, rfl⟩
      obtain ⟨e, he⟩ := hrejected
      have hknown : ¬ (c.tokens = [] ∧ c.endPosition = none) := fun h => by
        rw [position_eq_error_iff.mpr ⟨rfl, h⟩] at hp
        cases hp
      rw [he]
      exact ⟨iff_of_false (by rintro ⟨⟩) hknown, .inr ⟨e, rfl⟩⟩
  | error err =>
      obtain ⟨rfl, hunknown⟩ := position_eq_error_iff.mp hp
      have hfailure : c.failure (.fault f) = .outOfTokens := by simp only [failure, hp]
      exact ⟨iff_of_true hfailure hunknown, .inl hfailure⟩

section Apply
variable {r : Reader α} {Q : α → Prop}

/-- The subshells that are open where a reader stops are within the limit too. -/
theorem depth_apply_le (hkeeps : Keeps c.tokens c.allowance r Q) (hdepth : c.depth ≤ c.maxDepth) :
    (c.apply r).2.depth ≤ c.maxDepth := by
  have hkept := hkeeps c.rest c.rest_subset
  rw [apply]
  cases hread : r.read c.rest with
  | ok p => exact hdepth
  | error stop =>
      rw [hread] at hkept
      have hopened : stop.opened ≤ c.maxDepth - c.depth := hkept.opened
      simp only [moveTo]
      omega

theorem orderly_of_ok {a : α} {rest : List Token} (hread : r.read c.rest = .ok (a, rest))
    (hdepth : (c.apply r).2.depth ≤ c.maxDepth) (hlt : rest.length < c.rest.length) (ha : Q a) :
    c.Orderly Q (c.apply r) := by
  have happly : c.apply r = (.ok a, c.moveTo rest 0) := by simp only [apply, hread]
  rw [happly] at hdepth ⊢
  refine ⟨rfl, rfl, rfl, hdepth, ?_, ?_, iff_of_false ?_ ?_, ?_⟩
  · rintro b ⟨⟩
    refine ⟨rfl, ?_, ha⟩
    simp only [moveTo]
    omega
  · rintro e ⟨⟩
  · rintro ⟨⟩
  · rintro ⟨htokens, _⟩
    rw [Cursor.rest, htokens, List.drop_nil] at hlt
    exact absurd hlt (Nat.not_lt_zero _)
  · rintro _ f ⟨⟩

theorem orderly_of_stop {stop : Stop} (hread : r.read c.rest = .error stop)
    (hdepth : (c.apply r).2.depth ≤ c.maxDepth) (hstop : stop.Bounded c.tokens c.allowance) :
    c.Orderly Q (c.apply r) := by
  obtain ⟨reason, rest, opened⟩ := stop
  have happly : c.apply r =
      (.error ((c.moveTo rest opened).failure reason), c.moveTo rest opened) := by
    simp only [apply, hread]
  rw [happly] at hdepth ⊢
  refine ⟨rfl, rfl, rfl, hdepth, ?_, fun e h => ?_, ?_, fun hs f h => ?_⟩
  · rintro a ⟨⟩
  · obtain ⟨hindex, _⟩ := place_of_failure (Except.error.inj h)
    exact ⟨hindex.symm, Nat.le_add_right _ _, Nat.le_add_right _ _⟩
  · rw [Except.error.injEq]
    cases reason with
    | fault f => exact ((c.moveTo rest opened).failure_fault f).1
    | build e =>
        obtain ⟨t, ht, _⟩ := hstop.misspelled e rfl
        have htokens : c.tokens ≠ [] := List.ne_nil_of_mem ht
        exact iff_of_false (by rintro ⟨⟩) fun h => htokens h.1
  · cases h
    cases reason with
    | fault f => exact ((c.moveTo rest opened).failure_fault f).2
    | build e =>
        obtain ⟨t, ht, hmisspelled⟩ := hstop.misspelled e rfl
        exact absurd (hs t ht) hmisspelled

theorem orderly_apply (hdepth : c.depth ≤ c.maxDepth) (hkeeps : Keeps c.tokens c.allowance r Q)
    (htakes : r.Takes) : c.Orderly Q (c.apply r) := by
  have hlimited := depth_apply_le hkeeps hdepth
  have hkept := hkeeps c.rest c.rest_subset
  cases hread : r.read c.rest with
  | ok p =>
      rw [hread] at hkept
      exact orderly_of_ok hread hlimited (htakes hread) hkept.2
  | error stop =>
      rw [hread] at hkept
      exact orderly_of_stop hread hlimited hkept

end Apply

/-- What is made of the results has no influence on the cursor. -/
theorem Orderly.map {Q : α → Prop} {P : β → Prop} {called : Except Failure α × Cursor}
    (h : c.Orderly Q called) {f : α → β} (hf : ∀ a, Q a → P (f a)) :
    c.Orderly P (called.map (.map f) id) := by
  obtain ⟨result, left⟩ := called
  cases result with
  | ok a =>
      obtain ⟨hdepth, hindex, ha⟩ := h.ok a rfl
      refine ⟨h.tokens, h.maxDepth, h.endPosition, h.depth, ?_, ?_, iff_of_false ?_ ?_, ?_⟩
      · rintro b ⟨⟩
        exact ⟨hdepth, hindex, hf a ha⟩
      · rintro e ⟨⟩
      · rintro ⟨⟩
      · intro hunknown
        cases h.outOfTokens.mpr hunknown
      · rintro _ e ⟨⟩
  | error f =>
      have hsame {g : Failure} (hg : (.error f : Except Failure β) = .error g) :
          (.error f : Except Failure α) = .error g := by
        cases hg
        rfl
      refine ⟨h.tokens, h.maxDepth, h.endPosition, h.depth, ?_,
        fun e he => h.rejected e (hsame he), ?_, fun hs g hg => h.error hs g (hsame hg)⟩
      · rintro b ⟨⟩
      · rw [← h.outOfTokens, Prod.map_fst, Except.map, Except.error.injEq, Except.error.injEq]

end ShellGrammar.Cursor
