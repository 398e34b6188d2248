import ShellGrammar.Proofs.Reading.Commands

/-!
Refusals of a progress. A token is refused for one of six causes, listed by `Refused`, and what the
cause is can be told from the progress: whether a group has just been opened, whether the line could
end, whether the limit is reached. A line is refused at one place and for one reason, and a greater
limit lets the token pass that a smaller one forbids.
-/
namespace ShellGrammar.Progress
open Reader
variable {m n limit depth : Nat} {p q : Progress} {phase : Phase} {k : Token.Kind} {f g : Fault}
  {ts us taken taken' rest rest' : List Token}

/-- What a token can be refused for, by the progress that it meets. -/
inductive Refused (limit : Nat) : Progress → Token.Kind → Fault → Prop
  | emptyGroup (depth : Nat) : Refused limit ⟨.opened, depth⟩ .rparen .emptyGroup
  | nestingTooDeep {phase : Phase} {depth : Nat} (hp : phase = .start ∨ phase = .opened)
      (hd : limit ≤ depth) : Refused limit ⟨phase, depth⟩ .lparen .nestingTooDeep
  | noCommand {phase : Phase} {k : Token.Kind} (hp : phase = .start ∨ phase = .opened ∧ k ≠ .rparen)
      (hk : k ∉ stageKinds) (depth : Nat) : Refused limit ⟨phase, depth⟩ k .noCommand
  | noTarget {k : Token.Kind} (hk : k ≠ .word) (depth : Nat) :
      Refused limit ⟨.target, depth⟩ k (.unmet [.word])
  | trailing {phase : Phase} (hp : phase = .command ∨ phase = .closed) (k : Token.Kind) :
      Refused limit ⟨phase, 0⟩ k .trailingInput
  | unclosed {phase : Phase} {k : Token.Kind} (hp : phase = .command ∨ phase = .closed)
      (hk : k ≠ .rparen) (depth : Nat) : Refused limit ⟨phase, depth + 1⟩ k (.unmet [.rparen])

theorem refused_of_enter (hp : phase = .start ∨ phase = .opened ∧ k ≠ .rparen)
    (h : enter limit depth k = .error f) : Refused limit ⟨phase, depth⟩ k f := by
  cases k with
  | lparen =>
      simp only [enter] at h
      split at h
      · cases h
      · next hd =>
        cases h
        exact .nestingTooDeep (hp.imp_right And.left) (Nat.le_of_not_lt hd)
  | word | redirIn | redirOut | redirAppend | heredoc => cases h
  | rparen | andAnd | orOr | pipe =>
      cases h
      exact .noCommand hp (by decide) depth

theorem refused_of_leave (hp : phase = .command ∨ phase = .closed)
    (h : leave depth k = .error f) : Refused limit ⟨phase, depth⟩ k f := by
  cases depth with
  | zero =>
      have hf : f = .trailingInput := by cases k <;> cases h <;> rfl
      exact hf ▸ .trailing hp k
  | succ depth =>
      have hf : f = .unmet [.rparen] ∧ k ≠ .rparen := by
        cases k <;> cases h <;> exact ⟨rfl, by decide⟩
      exact hf.1 ▸ .unclosed hp hf.2 depth

theorem refused_of_step (h : p.step limit k = .error f) : Refused limit p k f := by
  obtain ⟨phase, depth⟩ := p
  cases phase with
  | start => exact refused_of_enter (.inl rfl) h
  | opened =>
      simp only [step] at h
      split at h
      · next hk =>
        cases h
        exact hk ▸ .emptyGroup depth
      · next hk => exact refused_of_enter (.inr ⟨rfl, hk⟩) h
  | command =>
      simp only [step] at h
      split at h
      · next hk => cases k <;> first | exact absurd hk (by decide) | cases h
      · exact refused_of_leave (.inl rfl) h
  | target =>
      simp only [step] at h
      split at h
      · cases h
      · next hk =>
        cases h
        exact .noTarget hk depth
  | closed => exact refused_of_leave (.inr rfl) h

theorem Refused.emptyGroup_iff (h : Refused limit p k f) :
    f = .emptyGroup ↔ p.phase = .opened ∧ k = .rparen := by
  cases h with
  | emptyGroup | nestingTooDeep | noTarget => simp
  | noCommand hp => rcases hp with rfl | ⟨rfl, hk⟩ <;> simp [*]
  | trailing hp | unclosed hp => rcases hp with rfl | rfl <;> simp

/-- Only behind a line that could end here is a token too much. -/
theorem Refused.trailingInput_iff (h : Refused limit p k f) :
    f = .trailingInput ↔ p.demand? = none := by
  cases h with
  | emptyGroup | noTarget => simp [demand?]
  | nestingTooDeep hp => rcases hp with rfl | rfl <;> simp [demand?]
  | noCommand hp => rcases hp with rfl | ⟨rfl, _⟩ <;> simp [demand?]
  | trailing hp | unclosed hp => rcases hp with rfl | rfl <;> simp [demand?]

/-- What is refused for the limit is a left parenthesis, and a greater limit lets it pass. -/
theorem Refused.of_nestingTooDeep (h : Refused limit p k .nestingTooDeep) :
    k = .lparen ∧ ∃ n q, limit < n ∧ p.step n k = .ok q := by
  cases h with
  | @nestingTooDeep phase depth hp hd =>
      refine ⟨rfl, depth + 1, ⟨.opened, depth + 1⟩, Nat.lt_succ_of_le hd, ?_⟩
      rcases hp with rfl | rfl <;> exact if_pos (Nat.lt_succ_self depth)

theorem enter_opened_iff (h : enter limit depth k = .ok q) : q.phase = .opened ↔ k = .lparen := by
  cases k with
  | lparen =>
      simp only [enter] at h
      split at h
      · cases h
        simp
      · cases h
  | word | redirIn | redirOut | redirAppend | heredoc =>
      cases h
      simp
  | rparen | andAnd | orOr | pipe => cases h

theorem leave_opened_iff (h : leave depth k = .ok q) : q.phase = .opened ↔ k = .lparen := by
  cases depth <;> cases k <;> cases h <;> simp

theorem step_opened_iff (h : p.step limit k = .ok q) : q.phase = .opened ↔ k = .lparen := by
  cases enter_or_leave h with
  | inl henter => exact enter_opened_iff henter
  | inr hleave => exact leave_opened_iff hleave

theorem exists_of_run_snoc {t : Token} (h : run limit p (ts ++ [t]) = .ok q) :
    ∃ r, run limit p ts = .ok r ∧ r.step limit t.kind = .ok q := by
  induction ts generalizing p with
  | nil =>
      rw [List.nil_append, run] at h
      split at h
      · next r hr =>
        cases h
        exact ⟨p, rfl, hr⟩
      · cases h
  | cons u ts ih =>
      rw [List.cons_append, run] at h
      rw [run]
      split at h
      · exact ih h
      · cases h

/-- A group has just been opened if a left parenthesis was read last. -/
theorem Reached.opened_iff (h : Reached limit ts p) :
    p.phase = .opened ↔ ts.getLast?.map Token.kind = some .lparen := by
  cases ts.eq_nil_or_concat with
  | inl hnil =>
      subst hnil
      cases h
      simp [init]
  | inr hconcat =>
      obtain ⟨us, t, rfl⟩ := hconcat
      rw [List.concat_eq_append] at h ⊢
      obtain ⟨q, _, hstep⟩ := exists_of_run_snoc h
      rw [step_opened_iff hstep, List.getLast?_concat, Option.map_some, Option.some_inj]

theorem Reached.accepts_iff (h : Reached limit ts p) : Accepts limit ts ↔ p.demand? = none := by
  refine ⟨fun ⟨q, hq, hdemand⟩ => ?_, fun hdemand => ⟨p, h, hdemand⟩⟩
  cases h.symm.trans hq
  exact hdemand

theorem depth_le_of_enter {depth : Nat} (hd : depth ≤ limit) (h : enter limit depth k = .ok q) :
    q.depth ≤ limit := by
  cases k with
  | word | redirIn | redirOut | redirAppend | heredoc =>
      cases h
      exact hd
  | lparen =>
      simp only [enter] at h
      split at h
      · next hlt =>
        cases h
        exact hlt
      · cases h
  | rparen | andAnd | orOr | pipe => cases h

theorem depth_le_of_leave {depth : Nat} (h : leave depth k = .ok q) : q.depth ≤ depth := by
  cases depth <;> cases k <;> cases h <;> simp

theorem depth_le_of_step (hp : p.depth ≤ limit) (h : p.step limit k = .ok q) :
    q.depth ≤ limit := by
  cases enter_or_leave h with
  | inl henter => exact depth_le_of_enter hp henter
  | inr hleave => exact Nat.le_trans (depth_le_of_leave hleave) hp

/-- No more subshells are ever open than the limit allows. -/
theorem depth_le_of_run (hp : p.depth ≤ limit) (h : run limit p ts = .ok q) :
    q.depth ≤ limit := by
  induction ts generalizing p with
  | nil =>
      cases h
      exact hp
  | cons t ts ih =>
      rw [run] at h
      split at h
      · next r hr => exact ih (depth_le_of_step hp hr) h
      · cases h

/-- What the limit refuses is a token that passes under every greater limit. -/
theorem Refuses.exists_step (h : p.Refuses m .nestingTooDeep rest) (hp : p.depth ≤ m)
    (hmn : m < n) : ∃ t more, rest = t :: more ∧ ∃ q, p.step n t.kind = .ok q := by
  cases rest with
  | nil =>
      obtain ⟨phase, depth⟩ := p
      cases phase <;> cases depth <;> cases h
  | cons t more =>
      refine ⟨t, more, rfl, ?_⟩
      have hlt : p.depth < n := Nat.lt_of_le_of_lt hp hmn
      have hstep : p.step m t.kind = .error .nestingTooDeep := h
      generalize t.kind = k at hstep ⊢
      cases refused_of_step hstep with
      | nestingTooDeep hphase =>
          cases hphase with
          | inl hphase | inr hphase =>
              subst hphase
              exact ⟨_, if_pos hlt⟩

/-- A line is not refused before its progress comes to an end. -/
theorem length_le_of_refuses (hus : run limit init us = .ok q) (h : us ++ ts = taken ++ rest)
    (hp : run limit init taken = .ok p) (hf : p.Refuses limit f rest) :
    us.length ≤ taken.length := by
  refine Nat.le_of_not_lt fun hlt => ?_
  obtain ⟨more, hmore⟩ : taken <+: us :=
    List.prefix_of_prefix_length_le ⟨rest, h.symm⟩ (List.prefix_append us ts) (Nat.le_of_lt hlt)
  cases more with
  | nil =>
      rw [← hmore, List.append_nil] at hlt
      exact Nat.lt_irrefl _ hlt
  | cons t more =>
      rw [← hmore, List.append_assoc] at h
      rw [← List.append_cancel_left h] at hf
      rw [← hmore, run_refused hp hf] at hus
      cases hus

theorem Refuses.unique (h : p.Refuses limit f rest) (h' : p.Refuses limit g rest) : f = g := by
  cases rest with
  | nil => exact Option.some.inj (h.symm.trans h')
  | cons t rest => exact Except.error.inj (h.symm.trans h')

/-- A line is refused at one place and for one reason. -/
theorem refusal_unique (h : taken ++ rest = taken' ++ rest') (hp : run limit init taken = .ok p)
    (hf : p.Refuses limit f rest) (hq : run limit init taken' = .ok q)
    (hg : q.Refuses limit g rest') : taken = taken' ∧ rest = rest' ∧ f = g := by
  have hlength : taken.length = taken'.length :=
    Nat.le_antisymm (length_le_of_refuses hp h hq hg) (length_le_of_refuses hq h.symm hp hf)
  obtain ⟨rfl, rfl⟩ := List.append_inj h hlength
  cases hp.symm.trans hq
  exact ⟨rfl, rfl, hf.unique hg⟩

end ShellGrammar.Progress
