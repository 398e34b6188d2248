import ShellGrammar.Proofs.Grammar.Derivation
import ShellGrammar.Proofs.Grammar.Progress
import ShellGrammar.Proofs.Reading.Triple
import ShellGrammar.Proofs.Tree.Building

/-!
What the readers of commands and redirections meet. A reader that succeeds has taken the tokens
that its tree yields and leaves a progress to which a complete stage belongs; a reader that stops
has run into a token that the progress refuses, for the reason that the progress gives. The loop
over the parts of a command has read nothing yet, or at least one part; with a part a command can
be built, and without one the progress is where it was.
-/
namespace ShellGrammar
open Reader Progress
variable {α : Type} {limit : Nat} {done us ts : List Token} {p : Progress}

namespace Progress

/-- The tokens so far lead to this progress. -/
def Reached (limit : Nat) (done : List Token) (p : Progress) : Prop :=
  run limit init done = .ok p

/-- A stage must come, and what is left isn't the end of an empty group. -/
def Fresh (p : Progress) (ts : List Token) : Prop :=
  p.phase = .start ∨ p.phase = .opened ∧ nextIs [.rparen] ts = false

/-- A stage is complete and what is left does not prolong it. -/
def Settled (p : Progress) (ts : List Token) : Prop :=
  p.phase = .command ∧ nextIs partKinds ts = false ∨ p.phase = .closed

theorem enter_error {depth : Nat} {k : Token.Kind} (hk : k ∉ partKinds) (hl : k ≠ .lparen) :
    enter limit depth k = .error .noCommand := by
  cases k <;> first | rfl | exact absurd rfl hl | exact absurd (by decide) hk

theorem Fresh.step {t : Token} (h : p.Fresh (t :: ts)) :
    p.step limit t.kind = enter limit p.depth t.kind := by
  obtain ⟨phase, depth⟩ := p
  cases h with
  | inl h =>
      cases h
      rfl
  | inr h =>
      obtain ⟨h, hr⟩ := h
      cases h
      exact if_neg (by simpa using nextIs_cons.mp hr)

theorem Fresh.demand? (h : p.Fresh ts) : p.demand? = some .noCommand := by
  obtain ⟨phase, depth⟩ := p
  cases h with
  | inl h =>
      cases h
      rfl
  | inr h =>
      cases h.1
      rfl

theorem Settled.step {t : Token} (h : p.Settled (t :: ts)) :
    p.step limit t.kind = leave p.depth t.kind := by
  obtain ⟨phase, depth⟩ := p
  cases h with
  | inl h =>
      obtain ⟨h, hr⟩ := h
      cases h
      exact if_neg (nextIs_cons.mp hr)
  | inr h =>
      cases h
      rfl

/-- Within a subshell only the right parenthesis is left after a complete and-or list. -/
theorem leave_error {depth : Nat} {k : Token.Kind} (hk : k ∉ [.pipe, .andAnd, .orOr])
    (hr : k ≠ .rparen) : leave (depth + 1) k = .error (.unmet [.rparen]) := by
  cases k <;> first | rfl | exact absurd rfl hr | exact absurd (by decide) hk

theorem leave_zero_error {k : Token.Kind} (hk : k ∉ [.pipe, .andAnd, .orOr]) :
    leave 0 k = .error .trailingInput := by
  cases k <;> first | rfl | exact absurd (by decide) hk

theorem Settled.demand? (h : p.Settled ts) :
    p.demand? = if p.depth = 0 then none else some (.unmet [.rparen]) := by
  obtain ⟨phase, depth⟩ := p
  cases h with
  | inl h => cases h.1; cases depth <;> rfl
  | inr h => cases h; cases depth <;> rfl

end Progress

namespace Reader

/-- The reader has stopped at a token that the progress refuses, and for its reason. -/
def Stuck (limit : Nat) (done : List Token) (stop : Stop) : Prop :=
  ∃ p f, Reached limit done p ∧ stop.reason = .fault f ∧ p.Refuses limit f stop.rest

/-- After `done` the reader has taken the tokens of a complete `a` and the kinds that would
prolong it do not follow. -/
def Complete (limit depth : Nat) (done : List Token) (kinds : List Token.Kind)
    (Yields : α → List Token → Prop) (us : List Token) (a : α) (rest : List Token) : Prop :=
  ∃ taken q, us = done ++ taken ∧ Yields a taken ∧ Reached limit us q ∧ q.depth = depth ∧
    q.Settled rest ∧ nextIs kinds rest = false

theorem redirectionAfter_meets {op : Token} {o : RedirectOp} (hs : op.WellSpelled)
    (ho : op.kind = o.kind) (hd : Reached limit done ⟨.target, p.depth⟩) :
    (redirectionAfter op).Meets done ts
      (fun us r _ => ∃ target, us = done ++ [target] ∧ r.Yields [op, target] ∧
        Reached limit us ⟨.command, p.depth⟩)
      (Stuck limit) := by
  apply Meets.bind
  apply Meets.expect
  · intro t rest _ _ hk
    have hk : t.kind = .word := List.mem_singleton.mp hk
    apply Meets.lift (Redirection.build_of_kind hs ho ⟨t.text⟩)
    refine ⟨t, rfl, .intro ho hk, run_snoc hd ?_⟩
    rw [hk]
    rfl
  · intro hn
    refine ⟨_, _, hd, rfl, ?_⟩
    cases ts with
    | nil => rfl
    | cons t ts => exact if_neg (by simpa using nextIs_cons.mp hn)

end Reader

namespace Command

/-- What parts make is determined by the words and the redirections among them. -/
theorem ofParts_eq_ok {parts : List Part} {c : Command}
    (hw : parts.filterMap Part.word? = c.words)
    (hr : parts.filterMap Part.redirection? = c.redirections) : ofParts parts = .ok c := by
  have hbuild : build c.simple? c.redirections = .ok c := build_eq_ok_iff.mpr ⟨rfl, rfl⟩
  rw [ofParts, hw, hr]
  cases c <;> exact hbuild

theorem exists_ofParts {parts : List Part} (h : parts ≠ []) :
    ∃ c, ofParts parts = .ok c ∧ parts.filterMap Part.word? = c.words ∧
      parts.filterMap Part.redirection? = c.redirections := by
  have hc : ∃ c : Command, parts.filterMap Part.word? = c.words ∧
      parts.filterMap Part.redirection? = c.redirections := by
    cases hw : parts.filterMap Part.word? with
    | cons w ws => exact ⟨.simple ⟨w, ws⟩ _, rfl, rfl⟩
    | nil =>
        cases hr : parts.filterMap Part.redirection? with
        | cons r rs => exact ⟨.bare r rs, rfl, rfl⟩
        | nil =>
            obtain ⟨part, others, rfl⟩ := List.exists_cons_of_ne_nil h
            cases part <;> simp [Part.word?, Part.redirection?] at hw hr
  obtain ⟨c, hw, hr⟩ := hc
  exact ⟨c, ofParts_eq_ok hw hr, hw, hr⟩

theorem ne_nil_of_ofParts {parts : List Part} {c : Command} (h : ofParts parts = .ok c) :
    parts ≠ [] := by
  rintro rfl
  cases h

end Command

namespace Reader

theorem part_meets {t : Token} (hs : t.WellSpelled) (hk : t.kind ∈ partKinds)
    (hd : Reached limit done p) (hstep : p.step limit t.kind = enter limit p.depth t.kind) :
    (part t).Meets (done ++ [t]) ts
      (fun us part _ => ∃ more, us = done ++ t :: more ∧
        Command.Parts part.word?.toList part.redirection?.toList (t :: more) ∧
        Reached limit us ⟨.command, p.depth⟩)
      (Stuck limit) := by
  rw [part]
  split
  · next hw =>
    apply Meets.pure
    refine ⟨[], rfl, .word hw .nil, run_snoc hd ?_⟩
    rw [hstep, hw]
    rfl
  · next hw =>
    have hr : t.kind ∈ Token.Kind.redirections := (List.mem_cons.mp hk).resolve_left hw
    obtain ⟨o, ho⟩ := RedirectOp.exists_of_mem hr
    have ht : Reached limit (done ++ [t]) ⟨.target, p.depth⟩ := by
      refine run_snoc hd ?_
      rw [hstep, ho]
      cases o <;> rfl
    apply Meets.bind
    apply (redirectionAfter_meets hs ho ht).mono
    · intro us r rest h
      obtain ⟨target, rfl, hy, hq⟩ := h
      apply Meets.pure
      exact ⟨[target], by simp, .redirection hy .nil, hq⟩
    · exact fun _ _ h => h

/-- The parts read since `done`, with `ts` ahead then: none yet, or at least one. -/
def PartsRead (limit depth : Nat) (done ts us : List Token) (parts : List Command.Part)
    (rest : List Token) : Prop :=
  ∃ taken, us = done ++ taken ∧
    Command.Parts (parts.filterMap Command.Part.word?)
      (parts.filterMap Command.Part.redirection?) taken ∧
    (parts = [] ∧ us = done ∧ rest = ts ∨ parts ≠ [] ∧ Reached limit us ⟨.command, depth⟩)

section PartsRead
variable {rest : List Token} {parts : List Command.Part} {t : Token}

theorem partsRead_nil {depth : Nat} : PartsRead limit depth done ts done [] ts :=
  ⟨[], by simp, .nil, .inl ⟨rfl, rfl, rfl⟩⟩

/-- Wherever the loop stands, the next part is taken as the first one would be. -/
theorem PartsRead.exists_enter (hd : Reached limit done p) (hf : p.Fresh ts)
    (h : PartsRead limit p.depth done ts us parts (t :: rest)) (hk : t.kind ∈ partKinds) :
    ∃ q : Progress, q.depth = p.depth ∧ Reached limit us q ∧
      q.step limit t.kind = enter limit q.depth t.kind := by
  obtain ⟨taken, _, _, h⟩ := h
  cases h with
  | inl h =>
      obtain ⟨_, hdone, hrest⟩ := h
      exact ⟨p, rfl, by rwa [hdone], (hrest ▸ hf).step⟩
  | inr h => exact ⟨⟨.command, p.depth⟩, rfl, h.2, if_pos hk⟩

theorem PartsRead.snoc {depth : Nat} {part : Command.Part} {more left : List Token}
    (h : PartsRead limit depth done ts us parts (t :: rest))
    (hpart : Command.Parts part.word?.toList part.redirection?.toList (t :: more))
    (hr : Reached limit (us ++ t :: more) ⟨.command, depth⟩) :
    PartsRead limit depth done ts (us ++ t :: more) (parts ++ [part]) left := by
  obtain ⟨taken, rfl, hparts, _⟩ := h
  refine ⟨taken ++ t :: more, by simp, ?_, .inr ⟨by simp, hr⟩⟩
  have hboth := hparts.append hpart
  cases part <;>
    simpa [List.filterMap_cons, Command.Part.word?, Command.Part.redirection?] using hboth

theorem stuck_of_fresh (hd : Reached limit done p) (hf : p.Fresh ts)
    (hl : nextIs [.lparen] ts = false) (hn : nextIs partKinds ts = false) :
    Stuck limit done ⟨.fault .noCommand, ts, 0⟩ := by
  refine ⟨p, .noCommand, hd, rfl, ?_⟩
  cases ts with
  | nil => exact hf.demand?
  | cons t ts =>
      rw [Refuses, hf.step]
      exact enter_error (nextIs_cons.mp hn) (by simpa using nextIs_cons.mp hl)

end PartsRead

theorem command_meets (hd : Reached limit done p) (hf : p.Fresh ts)
    (hl : nextIs [.lparen] ts = false) :
    command.Meets done ts (Complete limit p.depth done [] fun c us => c.Yields us)
      (Stuck limit) := by
  apply Meets.bind
  apply Meets.many (PartsRead limit p.depth done ts) partsRead_nil
  · intro us parts t rest hs hk h
    obtain ⟨q, hdepth, hq, hstep⟩ := h.exists_enter hd hf hk
    apply (part_meets hs hk hq hstep).mono
    · intro us part rest hpart
      obtain ⟨more, rfl, hpart, hr⟩ := hpart
      exact h.snoc hpart (hdepth ▸ hr)
    · exact fun _ _ h => h
  · intro us parts rest hn h
    obtain ⟨taken, rfl, hparts, h⟩ := h
    cases h with
    | inl h =>
        obtain ⟨rfl, hdone, rfl⟩ := h
        rw [hdone]
        apply Meets.stop
        exact stuck_of_fresh hd hf hl hn
    | inr h =>
        obtain ⟨hne, hreached⟩ := h
        obtain ⟨c, hc, hw, hrs⟩ := Command.exists_ofParts hne
        rw [hw, hrs] at hparts
        obtain ⟨part, others, rfl⟩ := List.exists_cons_of_ne_nil hne
        apply Meets.lift hc
        exact ⟨taken, _, rfl, hparts, hreached, rfl, .inl ⟨rfl, hn⟩, by cases rest <;> rfl⟩

end Reader
end ShellGrammar
