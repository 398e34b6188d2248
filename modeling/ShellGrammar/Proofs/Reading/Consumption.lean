import ShellGrammar.Proofs.Reading.Completeness

/-!
The readers of the grammar take at least one token when they succeed. It is enough that one of the
readers in a row does, since none gives tokens back.
-/
namespace ShellGrammar.Reader
variable {α β : Type} {ts : List Token} {n : Nat} {kinds : List Token.Kind}

/-- The reader takes at least one token. -/
def Takes (r : Reader α) : Prop :=
  ∀ {ts a rest}, r.read ts = .ok (a, rest) → rest.length < ts.length

section Takes
variable {r : Reader α} {next : α → Reader β}

theorem Takes.bind (h : r.Takes) : (r >>= next).Takes := by
  intro ts b tail hr
  obtain ⟨a, rest, ha, hb⟩ := exists_of_read_bind hr
  exact Nat.lt_of_le_of_lt ((next a).rest_le hb) (h ha)

theorem takes_bind (h : ∀ a, (next a).Takes) : (r >>= next).Takes := by
  intro ts b tail hr
  obtain ⟨a, rest, ha, hb⟩ := exists_of_read_bind hr
  exact Nat.lt_of_lt_of_le (h a hb) (r.rest_le ha)

end Takes

theorem expect_takes : (expect kinds).Takes := by
  intro ts t rest hr
  cases ts with
  | nil => cases hr
  | cons u ts =>
      simp only [expect] at hr
      split at hr <;> cases hr
      exact Nat.lt_succ_self _

theorem redirection_takes : redirection.Takes := expect_takes.bind

theorem readMany_rest_lt {item : Token → Reader α} {as : List α} {rest : List Token}
    (h : readMany kinds item ts = .ok (as, rest)) (hne : as ≠ []) : rest.length < ts.length := by
  cases ts with
  | nil =>
      rw [readMany] at h
      cases h
      exact absurd rfl hne
  | cons t ts =>
      rw [readMany] at h
      split at h
      · split at h
        · next a middle ha =>
          split at h
          · next hm =>
            cases h
            exact Nat.lt_succ_of_le
              (Nat.le_trans (readMany_rest_le hm) ((item t).rest_le ha))
          · cases h
        · cases h
      · cases h
        exact absurd rfl hne

theorem command_takes : command.Takes := by
  intro ts c rest hr
  obtain ⟨parts, middle, hparts, hc⟩ := exists_of_read_bind hr
  cases parts with
  | nil => cases hc
  | cons part parts =>
      have hmiddle := readMany_rest_lt hparts (List.cons_ne_nil part parts)
      exact Nat.lt_of_le_of_lt ((lift (Command.ofParts (part :: parts))).rest_le hc) hmiddle

theorem subshell_takes : (subshell n).Takes := by
  cases n with
  | zero =>
      intro ts a rest hr
      cases hr
  | succ n => exact expect_takes.bind

theorem stage_takes : (stage n).Takes := by
  refine takes_bind fun b => ?_
  split
  · exact subshell_takes.bind
  · exact command_takes.bind

theorem pipeline_takes : (pipeline n).Takes := stage_takes.bind

theorem andOr_takes : (andOr n).Takes := pipeline_takes.bind

end ShellGrammar.Reader
