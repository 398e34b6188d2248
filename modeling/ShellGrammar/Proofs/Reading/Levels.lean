import ShellGrammar.Proofs.Grammar.Nesting
import ShellGrammar.Proofs.Reading.Commands

/-!
What the readers of the levels meet that nest through subshells. From a place where a stage must
come, a reader takes a whole tree of its level within the allowance of subshells, or it stops at
the token that the progress refuses. Each level passes this on to the one above it, and a subshell,
with one subshell less allowed in it, to the stage that it is.
-/
namespace ShellGrammar
open Reader Progress
variable {α : Type} {limit allowance : Nat} {done us ts : List Token} {p : Progress}

namespace Reader

/-- A reader of one of the levels that nest: from any place where a stage must come it takes a
whole tree of its level with at most `allowance` nested subshells. -/
def MeetsLevel (limit allowance : Nat) (kinds : List Token.Kind)
    (Yields : α → List Token → Prop) (nesting : α → Nat) (r : Reader α) : Prop :=
  ∀ {done ts : List Token} {p : Progress}, Reached limit done p → p.depth + allowance = limit →
    p.Fresh ts →
      r.Meets done ts
        (Complete limit p.depth done kinds fun a us => Yields a us ∧ nesting a ≤ allowance)
        (Stuck limit)

/-- The tokens of a complete tree, one token that leads on and those of another one. -/
theorem Complete.extend {β γ : Type} {depth : Nat} {kinds before : List Token.Kind}
    {Y : α → List Token → Prop} {Z : β → List Token → Prop} {W : γ → List Token → Prop}
    {a : α} {b : β} {c : γ} {t : Token} {rest vs : List Token}
    (ha : Complete limit depth done before Y us a (t :: rest))
    (hb : Complete limit depth (us ++ [t]) kinds Z vs b ts)
    (hW : ∀ taken more, Y a taken → Z b more → W c (taken ++ t :: more)) :
    Complete limit depth done kinds W vs c ts := by
  obtain ⟨taken, _, rfl, hy, _⟩ := ha
  obtain ⟨more, q, rfl, hz, hq⟩ := hb
  exact ⟨taken ++ t :: more, q, by simp, hW _ _ hy hz, hq⟩

theorem Complete.settled {depth : Nat} {kinds : List Token.Kind} {Y : α → List Token → Prop}
    {a : α} (h : Complete limit depth done kinds Y us a ts) :
    ∃ q, Reached limit us q ∧ q.depth = depth ∧ q.Settled ts := by
  obtain ⟨_, q, _, _, hreached, hdepth, hsettled, _⟩ := h
  exact ⟨q, hreached, hdepth, hsettled⟩

theorem pipelineOf_meets {r : Reader Stage}
    (hr : MeetsLevel limit allowance [] Stage.Yields Stage.nesting r) :
    MeetsLevel limit allowance [.pipe] Pipeline.Yields Pipeline.nesting (pipelineOf r) := by
  intro done ts p hd hlimit hf
  apply Meets.bind
  apply (hr hd hlimit hf).mono _ fun _ _ h => h
  intro us first rest hfirst
  apply Meets.bind
  apply Meets.many (fun us others rest => Complete limit p.depth done []
    (fun others us => (Pipeline.ofStages first others).Yields us ∧
      (Pipeline.ofStages first others).nesting ≤ allowance) us others rest)
  · obtain ⟨taken, q, hus, ⟨hy, hn⟩, hq⟩ := hfirst
    exact ⟨taken, q, hus, ⟨.single hy, by simpa only [Pipeline.ofStages, Pipeline.nesting]⟩, hq⟩
  · intro us others bar rest _ hk hothers
    have hk : bar.kind = .pipe := List.mem_singleton.mp hk
    obtain ⟨q, hreached, hdepth, hsettled⟩ := hothers.settled
    have hstart : Reached limit (us ++ [bar]) ⟨.start, p.depth⟩ := by
      apply run_snoc hreached
      rw [hsettled.step, hk, hdepth]
      rfl
    apply (hr hstart hlimit (.inl rfl)).mono _ fun _ _ h => h
    intro vs s rest hs
    apply hothers.extend hs
    intro taken more h h'
    rw [Pipeline.nesting_snoc]
    exact ⟨h.1.snoc hk h'.1, Nat.max_le.mpr ⟨h.2, h'.2⟩⟩
  · intro us others rest hn h
    obtain ⟨taken, q, hus, hy, hreached, hdepth, hsettled, _⟩ := h
    apply Meets.lift rfl
    exact ⟨taken, q, hus, hy, hreached, hdepth, hsettled, hn⟩

theorem ofTexts_operators (first : Pipeline) (others : List (LogicalOp × Pipeline)) :
    AndOr.ofTexts first (others.map fun o => (o.1.text, o.2)) =
      .ok (AndOr.ofOperands first others) := by
  refine AndOr.ofTexts_eq_ok_iff.mpr ⟨?_, ?_⟩
  · rw [AndOr.operands, AndOr.first_ofOperands, AndOr.others_ofOperands, List.map_map]
    rfl
  · rw [AndOr.operators, AndOr.others_ofOperands, List.map_map, List.map_map]
    rfl

theorem andOrOf_meets {r : Reader Pipeline}
    (hr : MeetsLevel limit allowance [.pipe] Pipeline.Yields Pipeline.nesting r) :
    MeetsLevel limit allowance [.pipe, .andAnd, .orOr] AndOr.Yields AndOr.nesting (andOrOf r) := by
  intro done ts p hd hlimit hf
  apply Meets.bind
  apply (hr hd hlimit hf).mono _ fun _ _ h => h
  intro us first rest hfirst
  apply Meets.bind
  apply Meets.many (fun us texts rest => ∃ others : List (LogicalOp × Pipeline),
    texts = others.map (fun o => (o.1.text, o.2)) ∧
    Complete limit p.depth done [.pipe]
      (fun others us => (AndOr.ofOperands first others).Yields us ∧
        (AndOr.ofOperands first others).nesting ≤ allowance) us others rest)
  · obtain ⟨taken, q, hus, ⟨hy, hn⟩, hq⟩ := hfirst
    exact ⟨[], rfl, taken, q, hus,
      ⟨.single hy, by simpa only [AndOr.ofOperands, AndOr.nesting]⟩, hq⟩
  · intro us texts t rest hs hk h
    obtain ⟨others, rfl, hothers⟩ := h
    obtain ⟨op, hop⟩ := LogicalOp.exists_of_mem hk
    have htext : t.text = op.text := LogicalOp.text_of_kind hs hop
    obtain ⟨q, hreached, hdepth, hsettled⟩ := hothers.settled
    have hstart : Reached limit (us ++ [t]) ⟨.start, p.depth⟩ := by
      apply run_snoc hreached
      rw [hsettled.step, hop, hdepth]
      cases op <;> rfl
    apply Meets.bind
    apply (hr hstart hlimit (.inl rfl)).mono _ fun _ _ h => h
    intro vs next rest hnext
    apply Meets.pure
    refine ⟨others ++ [(op, next)], by simp [htext], hothers.extend hnext ?_⟩
    intro taken more h h'
    rw [AndOr.nesting_snoc]
    exact ⟨h.1.snoc hop h'.1, Nat.max_le.mpr ⟨h.2, h'.2⟩⟩
  · intro us texts rest hn h
    obtain ⟨others, rfl, taken, q, hus, hy, hreached, hdepth, hsettled, hpipe⟩ := h
    rw [AndOr.build_pairs]
    apply Meets.lift (ofTexts_operators first others)
    have hnext : nextIs ([.pipe] ++ Token.Kind.logical) rest = false := by
      rw [nextIs_append, hpipe, hn]
      rfl
    exact ⟨taken, q, hus, hy, hreached, hdepth, hsettled, hnext⟩

/-- After `done` a whole subshell has been taken. -/
def Closed (limit allowance depth : Nat) (done us : List Token) (body : AndOr) : Prop :=
  ∃ taken, us = done ++ taken ∧ (Stage.subshell body).Yields taken ∧
    (Stage.subshell body).nesting ≤ allowance ∧ Reached limit us ⟨.closed, depth⟩

theorem stageOf_meets {r : Reader AndOr}
    (hr : ∀ {done ts : List Token} {p : Progress}, Reached limit done p →
      p.depth + allowance = limit → p.Fresh ts → nextIs [.lparen] ts = true →
        r.Meets done ts (fun us body _ => Closed limit allowance p.depth done us body)
          (Stuck limit)) :
    MeetsLevel limit allowance [] Stage.Yields Stage.nesting (stageOf r) := by
  intro done ts p hd hlimit hf
  apply Meets.bind
  apply Meets.upcoming
  cases hl : nextIs [.lparen] ts with
  | true =>
      apply Meets.bind
      apply (hr hd hlimit hf hl).mono _ fun _ _ h => h
      intro us body rest h
      obtain ⟨taken, hus, hy, hn, hclosed⟩ := h
      apply Meets.pure
      exact ⟨taken, _, hus, ⟨hy, hn⟩, hclosed, rfl, .inr rfl, by cases rest <;> rfl⟩
  | false =>
      apply Meets.bind
      apply (command_meets hd hf hl).mono _ fun _ _ h => h
      intro us c rest h
      obtain ⟨taken, q, hus, hy, hq⟩ := h
      apply Meets.pure
      exact ⟨taken, q, hus, ⟨.command hy, Nat.zero_le _⟩, hq⟩

/-- Behind a complete body the parenthesis closes the subshell, and nothing else may come. -/
theorem closing_meets {depth : Nat} {left : Token} {body : AndOr} (hl : left.kind = .lparen)
    (h : Complete limit (depth + 1) (done ++ [left]) [.pipe, .andAnd, .orOr]
      (fun a us => a.Yields us ∧ a.nesting ≤ allowance) us body ts) :
    (do let _ ← expect [.rparen]; return body : Reader AndOr).Meets us ts
      (fun us body _ => Closed limit (allowance + 1) depth done us body) (Stuck limit) := by
  obtain ⟨taken, q, rfl, ⟨hy, hn⟩, hreached, hdepth, hsettled, hnext⟩ := h
  apply Meets.bind
  apply Meets.expect
  · rintro right rest rfl _ hk
    have hk : right.kind = .rparen := List.mem_singleton.mp hk
    apply Meets.pure
    refine ⟨left :: (taken ++ [right]), by simp, .subshell hl hy hk, Nat.succ_le_succ hn,
      run_snoc hreached ?_⟩
    rw [hsettled.step, hdepth, hk]
    rfl
  · intro hmiss
    refine ⟨q, _, hreached, rfl, ?_⟩
    cases ts with
    | nil =>
        rw [Refuses, hsettled.demand?, hdepth]
        rfl
    | cons t rest =>
        rw [Refuses, hsettled.step, hdepth]
        exact leave_error (nextIs_cons.mp hnext) (by simpa using nextIs_cons.mp hmiss)

theorem group_meets {depth : Nat} {left : Token} {r : Reader AndOr}
    (hr : MeetsLevel limit allowance [.pipe, .andAnd, .orOr] AndOr.Yields AndOr.nesting r)
    (hl : left.kind = .lparen) (hopened : Reached limit (done ++ [left]) ⟨.opened, depth + 1⟩)
    (hlimit : depth + 1 + allowance = limit) :
    (group r).Meets (done ++ [left]) ts
      (fun us body _ => Closed limit (allowance + 1) depth done us body) (Stuck limit) := by
  apply Meets.bind
  apply Meets.upcoming
  dsimp only
  split
  · next hempty =>
    apply Meets.bind
    apply Meets.stop
    refine ⟨_, .emptyGroup, hopened, rfl, ?_⟩
    cases ts with
    | nil => cases hempty
    | cons t ts => exact if_pos (by simpa [nextIs] using hempty)
  · next hnext =>
    apply Meets.bind
    apply Meets.inside
    apply (hr hopened hlimit (.inr ⟨rfl, by simpa using hnext⟩)).mono
    · exact fun _ _ _ h => closing_meets hl h
    · intro us stop h
      obtain ⟨q, f, h⟩ := h
      exact ⟨q, f, h⟩

theorem subshell_meets (hd : Reached limit done p) (hlimit : p.depth + allowance = limit)
    (hf : p.Fresh ts) (hl : nextIs [.lparen] ts = true) :
    (subshell allowance).Meets done ts
      (fun us body _ => Closed limit allowance p.depth done us body) (Stuck limit) := by
  induction allowance generalizing done ts p with
  | zero =>
      apply Meets.stop
      refine ⟨p, .nestingTooDeep, hd, rfl, ?_⟩
      cases ts with
      | nil => cases hl
      | cons t ts =>
          have ht : t.kind = .lparen := by simpa [nextIs] using hl
          rw [Refuses, hf.step, ht]
          exact if_neg (by omega)
  | succ allowance ih =>
      apply Meets.bind
      apply Meets.expect
      · rintro left ts rfl _ hk
        have hk : left.kind = .lparen := List.mem_singleton.mp hk
        have hopened : Reached limit (done ++ [left]) ⟨.opened, p.depth + 1⟩ := by
          apply run_snoc hd
          rw [hf.step, hk]
          exact if_pos (by omega)
        exact group_meets (andOrOf_meets (pipelineOf_meets (stageOf_meets ih))) hk hopened
          (by omega)
      · intro hn
        rw [hl] at hn
        cases hn

theorem andOr_meets :
    MeetsLevel limit allowance [.pipe, .andAnd, .orOr] AndOr.Yields AndOr.nesting
      (andOr allowance) :=
  andOrOf_meets (pipelineOf_meets (stageOf_meets subshell_meets))

/-- A line that is read has been read to its end. -/
theorem line_meets (limit : Nat) (h : ts ≠ []) :
    (line limit).Meets [] ts
      (fun us l rest => rest = [] ∧ Accepts limit us ∧
        ∃ body, l = .sequence body ∧ body.Yields us ∧ body.nesting ≤ limit)
      (Stuck limit) := by
  intro hs
  have hmeets : (andOr limit).Meets [] ts
      (Complete limit init.depth [] [.pipe, .andAnd, .orOr]
        fun a us => a.Yields us ∧ a.nesting ≤ limit)
      (Stuck limit) :=
    andOr_meets rfl (Nat.zero_add _) (.inl rfl)
  have hread := hmeets hs
  obtain ⟨t, ts, rfl⟩ := List.exists_cons_of_ne_nil h
  cases hr : (andOr limit).read (t :: ts) with
  | error stop =>
      rw [hr] at hread
      simp only [line, hr]
      exact hread
  | ok result =>
      obtain ⟨body, rest⟩ := result
      rw [hr] at hread
      obtain ⟨taken, hts, _, q, rfl, ⟨hy, hn⟩, hreached, hdepth, hsettled, hnext⟩ := hread
      cases rest with
      | nil =>
          simp only [line, hr]
          have hdemand : q.demand? = none := by
            rw [hsettled.demand?, hdepth]
            rfl
          exact ⟨taken, hts, rfl, ⟨q, hreached, hdemand⟩, body, rfl, hy, hn⟩
      | cons u rest =>
          simp only [line, hr]
          refine ⟨taken, hts, q, .trailingInput, hreached, rfl, ?_⟩
          change q.step limit u.kind = _
          rw [hsettled.step, hdepth]
          exact leave_zero_error (nextIs_cons.mp hnext)

end Reader
end ShellGrammar
