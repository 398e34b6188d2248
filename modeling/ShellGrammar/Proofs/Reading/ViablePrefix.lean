import ShellGrammar.Proofs.Reading.Outcome

/-!
Errors come at the first token that cannot be part of a line. What has been read before the error
can be completed to a line within the limit; with the token found there no completion is left. Both
rest on the progress of the line, which determines all that may follow.
-/
namespace ShellGrammar
open Reader Progress
variable {ts us : List Token} {d : Int} {endPosition : Option Int}

namespace Line

/-- The tokens are read as a line with something in it. -/
def Accepted (d : Int) (ts : List Token) : Prop :=
  ∃ body, ofTokens ts d none = .ok (.sequence body)

/-- The tokens can be completed to a line. -/
def Viable (d : Int) (ts : List Token) : Prop :=
  ∃ more, (∀ t ∈ more, t.WellSpelled) ∧ Accepted d (ts ++ more)

theorem accepted_iff_accepts (hs : ∀ t ∈ ts, t.WellSpelled) (hd : 1 ≤ d) :
    Accepted d ts ↔ Accepts d.toNat ts := by
  by_cases hne : ts = []
  · subst hne
    refine ⟨fun ⟨body, h⟩ => ?_, fun ⟨p, hp, hdemand⟩ => ?_⟩
    · rw [ofTokens_nil hd] at h
      cases h
    · cases hp
      cases hdemand
  · cases ofTokens_outcome hne hs hd none with
    | inl h =>
        obtain ⟨body, hbody, _, _, haccepts⟩ := h
        exact ⟨fun _ => haccepts, fun _ => ⟨body, hbody⟩⟩
    | inr h =>
        obtain ⟨e, taken, rest, f, he, rfl, hlocates⟩ := h
        obtain ⟨p, hp, hf⟩ := hlocates.refused
        refine ⟨fun ⟨body, h⟩ => ?_, fun h => absurd h (not_accepts_of_refuses hp hf)⟩
        rw [he] at h
        cases h

/-- What leads to a progress is viable. -/
theorem viable_of_reached {p : Progress} (hs : ∀ t ∈ ts, t.WellSpelled) (hd : 1 ≤ d)
    (h : Reached d.toNat ts p) : Viable d ts := by
  have hc := p.completion_wellSpelled
  refine ⟨p.completion, hc, ?_⟩
  rw [accepted_iff_accepts (List.forall_mem_append.mpr ⟨hs, hc⟩) hd]
  exact accepts_completion h

/-- A refused token cannot be made good by any tokens after it. -/
theorem not_viable_of_refuses {p : Progress} {f : Fault} {t : Token}
    (hs : ∀ u ∈ ts ++ [t], u.WellSpelled) (hd : 1 ≤ d) (h : Reached d.toNat ts p)
    (hf : p.Refuses d.toNat f (t :: us)) : ¬ Viable d (ts ++ [t]) := by
  intro h'
  obtain ⟨more, hmore, haccepted⟩ := h'
  rw [accepted_iff_accepts (List.forall_mem_append.mpr ⟨hs, hmore⟩) hd, List.append_assoc]
    at haccepted
  have hf' : p.Refuses d.toNat f (t :: more) := hf
  exact not_accepts_of_refuses h hf' haccepted

/-- An error is reported at the first token after which the line cannot be completed any more, or
at the end of a line that is not complete. -/
theorem rejected_at_first_offender {e : SyntaxError} (hs : ∀ t ∈ ts, t.WellSpelled) (hd : 1 ≤ d)
    (h : ofTokens ts d endPosition = .error (.rejected e)) :
    ∃ i : Nat, e.index = i ∧ i ≤ ts.length ∧ Viable d (ts.take i) ∧
      (∀ hi : i < ts.length, e.found = some ts[i] ∧ e.position = ts[i].position ∧
        ¬ Viable d (ts.take (i + 1))) ∧
      (i = ts.length → e.found = none) := by
  obtain ⟨taken, rest, f, rfl, hlocates⟩ := exists_locates_of_rejected hs hd h
  obtain ⟨p, hp, hf⟩ := hlocates.refused
  obtain ⟨htaken, hrest⟩ := List.forall_mem_append.mp hs
  refine ⟨taken.length, hlocates.index, by simp, ?_, ?_, ?_⟩
  · rw [List.take_left]
    exact viable_of_reached htaken hd hp
  · intro hi
    cases rest with
    | nil => simp at hi
    | cons t rest =>
        have hget : (taken ++ t :: rest)[taken.length] = t := by simp
        have htake : (taken ++ t :: rest).take (taken.length + 1) = taken ++ [t] := by
          rw [List.take_length_add_append]
          rfl
        have hsnoc : ∀ u ∈ taken ++ [t], u.WellSpelled :=
          List.forall_mem_append.mpr ⟨htaken, by simpa using hrest t List.mem_cons_self⟩
        rw [hget, htake]
        exact ⟨hlocates.found, hlocates.position t rfl, not_viable_of_refuses hsnoc hd hp hf⟩
  · intro hi
    have hnil : rest = [] := by simpa using hi
    rw [hlocates.found, hnil]
    rfl

/-- The pipe in `a && (| b)`: a command may still follow the parenthesis, but no pipe. -/
theorem rejected_at_first_offender_pipe :
    Viable 1 [⟨"a", .word, 0⟩, ⟨"&&", .andAnd, 2⟩, ⟨"(", .lparen, 5⟩] ∧
      ¬ Viable 1 [⟨"a", .word, 0⟩, ⟨"&&", .andAnd, 2⟩, ⟨"(", .lparen, 5⟩, ⟨"|", .pipe, 6⟩] := by
  have h : ofTokens [⟨"a", .word, 0⟩, ⟨"&&", .andAnd, 2⟩, ⟨"(", .lparen, 5⟩, ⟨"|", .pipe, 6⟩,
      ⟨"b", .word, 8⟩, ⟨")", .rparen, 9⟩] 1 none = .error (.rejected
        ⟨.unexpectedToken, stageKinds, some ⟨"|", .pipe, 6⟩, 3, 6, "expected a command"⟩) := by
    with_unfolding_all rfl
  obtain ⟨i, hi, _, hviable, hfound, _⟩ := rejected_at_first_offender (by decide) (by decide) h
  have hi : i = 3 := by
    simp only at hi
    omega
  subst hi
  exact ⟨hviable, (hfound (by decide)).2.2⟩

end Line
end ShellGrammar
