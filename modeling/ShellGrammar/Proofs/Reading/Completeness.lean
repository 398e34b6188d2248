import ShellGrammar.Proofs.Reading.Levels

/-!
What the grammar derives is read: if a tree yields tokens and the tokens after them do not prolong
the tree, its reader returns the tree and leaves what follows. The loops therefore never stop too
early and never take too much.
-/
namespace ShellGrammar
open Reader
variable {α : Type} {ts tail : List Token}

theorem Command.Parts.head {ws : List Word} {rs : List Redirection} (h : Parts ws rs ts)
    (hne : ts ≠ []) : ∃ t us, ts = t :: us ∧ t.kind ∈ partKinds := by
  cases h with
  | nil => exact absurd rfl hne
  | word ht _ => exact ⟨_, _, rfl, by rw [ht]; decide⟩
  | redirection hr _ =>
      cases hr with
      | intro ho _ => exact ⟨_, _, rfl, List.mem_cons_of_mem _ (ho ▸ RedirectOp.kind_mem _)⟩

theorem Stage.Yields.head {s : Stage} (h : s.Yields ts) :
    ∃ t us, ts = t :: us ∧ t.kind ∈ stageKinds := by
  cases h with
  | subshell hl _ _ => exact ⟨_, _, rfl, by rw [hl]; decide⟩
  | command hc =>
      obtain ⟨t, us, rfl, ht⟩ := Command.Parts.head hc hc.ne_nil
      refine ⟨t, us, rfl, ?_⟩
      rcases List.mem_cons.mp ht with ht | ht
      · rw [ht]
        exact List.mem_cons_self
      · exact List.mem_cons_of_mem _ (List.mem_cons_of_mem _ ht)

theorem Pipeline.Yields.head {p : Pipeline} (h : p.Yields ts) :
    ∃ t us, ts = t :: us ∧ t.kind ∈ stageKinds := by
  cases h with
  | single hs => exact hs.head
  | pipe hs _ _ =>
      obtain ⟨t, us, rfl, ht⟩ := hs.head
      exact ⟨t, _, rfl, ht⟩

theorem AndOr.Yields.head {a : AndOr} (h : a.Yields ts) :
    ∃ t us, ts = t :: us ∧ t.kind ∈ stageKinds := by
  cases h with
  | single hp => exact hp.head
  | chain hp _ _ =>
      obtain ⟨t, us, rfl, ht⟩ := hp.head
      exact ⟨t, _, rfl, ht⟩

theorem AndOr.Yields.ne_nil {a : AndOr} (h : a.Yields ts) : ts ≠ [] := by
  obtain ⟨t, us, rfl, _⟩ := h.head
  exact List.cons_ne_nil t us

namespace Reader

theorem readMany_stop {kinds : List Token.Kind} {item : Token → Reader α}
    (h : nextIs kinds tail = false) : readMany kinds item tail = .ok ([], tail) := by
  cases tail with
  | nil => rw [readMany]
  | cons t tail => rw [readMany, if_neg (by simpa using nextIs_cons.mp h)]

theorem readMany_cons {kinds : List Token.Kind} {item : Token → Reader α} {t : Token}
    {a : α} {as : List α} {rest : List Token} (hk : t.kind ∈ kinds)
    (ha : (item t).read ts = .ok (a, rest)) (has : readMany kinds item rest = .ok (as, tail)) :
    readMany kinds item (t :: ts) = .ok (a :: as, tail) := by
  rw [readMany, if_pos (by simpa using hk)]
  split
  · next h =>
    rw [ha] at h
    cases h
    rw [has]
  · next h =>
    rw [ha] at h
    cases h

theorem read_bind_ok {β : Type} {r : Reader α} {next : α → Reader β} {a : α}
    (h : r.read ts = .ok (a, tail)) : (r >>= next).read ts = (next a).read tail := by
  rw [read_bind, h]

theorem exists_of_read_bind {β : Type} {r : Reader α} {next : α → Reader β} {b : β}
    (h : (r >>= next).read ts = .ok (b, tail)) :
    ∃ a rest, r.read ts = .ok (a, rest) ∧ (next a).read rest = .ok (b, tail) := by
  rw [read_bind] at h
  split at h
  · next a rest hr => exact ⟨a, rest, hr, h⟩
  · cases h

theorem expect_cons {kinds : List Token.Kind} {t : Token} (hk : t.kind ∈ kinds) :
    (expect kinds).read (t :: ts) = .ok (t, ts) := by
  simp [expect, hk]

theorem redirectionAfter_read {o : RedirectOp} {op target : Token} (hs : op.WellSpelled)
    (ho : op.kind = o.kind) (ht : target.kind = .word) :
    (redirectionAfter op).read (target :: tail) = .ok (⟨o, ⟨target.text⟩⟩, tail) := by
  rw [redirectionAfter, read_bind_ok (expect_cons (by simp [ht])),
    Redirection.build_of_kind hs ho]
  rfl

/-- The parts of a command are all read, each kind of them in its order. -/
theorem parts_read {ws : List Word} {rs : List Redirection} (h : Command.Parts ws rs ts)
    (hs : ∀ t ∈ ts, t.WellSpelled) (ht : nextIs partKinds tail = false) :
    ∃ parts, readMany partKinds part (ts ++ tail) = .ok (parts, tail) ∧
      parts.filterMap Command.Part.word? = ws ∧
      parts.filterMap Command.Part.redirection? = rs := by
  induction h with
  | nil => exact ⟨[], readMany_stop ht, rfl, rfl⟩
  | @word t ws rs ts hk _ ih =>
      obtain ⟨parts, hread, rfl, rfl⟩ := ih fun t ht => hs t (List.mem_cons_of_mem _ ht)
      refine ⟨.word ⟨t.text⟩ :: parts, readMany_cons (by rw [hk]; decide) ?_ hread, rfl, rfl⟩
      rw [part, if_pos hk]
      rfl
  | @redirection r us ws rs ts hr _ ih =>
      cases hr with
      | @intro op target o ho hk =>
          obtain ⟨parts, hread, rfl, rfl⟩ := ih fun t ht => hs t (List.mem_append_right _ ht)
          have hw : op.kind ≠ .word := by
            rw [ho]
            cases o <;> decide
          have hmem : op.kind ∈ partKinds :=
            List.mem_cons_of_mem _ (ho ▸ RedirectOp.kind_mem o)
          refine ⟨.redirection ⟨o, ⟨target.text⟩⟩ :: parts, readMany_cons hmem ?_ hread, rfl, rfl⟩
          rw [part, if_neg hw]
          exact read_bind_ok (redirectionAfter_read (hs op (by simp)) ho hk)

theorem command_read {c : Command} (h : c.Yields ts) (hs : ∀ t ∈ ts, t.WellSpelled)
    (ht : nextIs partKinds tail = false) : command.read (ts ++ tail) = .ok (c, tail) := by
  obtain ⟨parts, hread, hw, hr⟩ := parts_read h hs ht
  have hc : Command.ofParts parts = .ok c := Command.ofParts_eq_ok hw hr
  obtain ⟨part, others, rfl⟩ := List.exists_cons_of_ne_nil (Command.ne_nil_of_ofParts hc)
  rw [command, read_bind_ok hread]
  simp only [hc]
  rfl

theorem pipelineOf_single {r : Reader Stage} {s : Stage} (hs : r.read ts = .ok (s, tail))
    (ht : nextIs [.pipe] tail = false) : (pipelineOf r).read ts = .ok (.single s, tail) := by
  rw [pipelineOf, read_bind_ok hs, read_bind_ok (readMany_stop ht)]
  rfl

theorem pipelineOf_pipe {r : Reader Stage} {s : Stage} {p : Pipeline} {bar : Token}
    {us : List Token} (hs : r.read ts = .ok (s, bar :: us)) (hb : bar.kind = .pipe)
    (hp : (pipelineOf r).read us = .ok (p, tail)) :
    (pipelineOf r).read ts = .ok (.pipe s p, tail) := by
  obtain ⟨first, rest, hfirst, hp⟩ := exists_of_read_bind hp
  obtain ⟨others, rest', hothers, hp⟩ := exists_of_read_bind hp
  cases hp
  rw [pipelineOf, read_bind_ok hs, read_bind_ok (readMany_cons (by simp [hb]) hfirst hothers)]
  rfl

theorem andOrOf_single {r : Reader Pipeline} {p : Pipeline} (hp : r.read ts = .ok (p, tail))
    (ht : nextIs Token.Kind.logical tail = false) :
    (andOrOf r).read ts = .ok (.single p, tail) := by
  rw [andOrOf, read_bind_ok hp, read_bind_ok (readMany_stop ht)]
  rfl

theorem andOrOf_chain {r : Reader Pipeline} {p : Pipeline} {op : LogicalOp} {a : AndOr}
    {t : Token} {us : List Token} (hp : r.read ts = .ok (p, t :: us)) (hs : t.WellSpelled)
    (hk : t.kind = op.kind) (ha : (andOrOf r).read us = .ok (a, tail)) :
    (andOrOf r).read ts = .ok (.chain p op a, tail) := by
  have htext : op.text = t.text := (LogicalOp.text_of_kind hs hk).symm
  obtain ⟨first, rest, hfirst, ha⟩ := exists_of_read_bind ha
  obtain ⟨others, rest', hothers, ha⟩ := exists_of_read_bind ha
  have hitem : (do return (t.text, ← r) : Reader (String × Pipeline)).read us =
      .ok ((t.text, first), rest) := read_bind_ok hfirst
  rw [andOrOf, read_bind_ok hp, read_bind_ok (readMany_cons (hk ▸ op.kind_mem) hitem hothers),
    AndOr.build_pairs]
  rw [AndOr.build_pairs] at ha
  cases hrest : AndOr.ofTexts first others with
  | error e =>
      rw [hrest] at ha
      cases ha
  | ok rest =>
      rw [hrest] at ha
      cases ha
      rw [AndOr.ofTexts_cons_eq_ok_iff.mpr ⟨op, a, htext, hrest, rfl⟩]
      rfl

theorem stageOf_subshell {r : Reader AndOr} {body : AndOr} {left : Token}
    (hl : left.kind = .lparen) (hr : r.read (left :: ts) = .ok (body, tail)) :
    (stageOf r).read (left :: ts) = .ok (.subshell body, tail) := by
  have hnext : nextIs [.lparen] (left :: ts) = true := by simp [nextIs, hl]
  rw [stageOf, read_bind_ok (rfl : (upcoming [.lparen]).read (left :: ts) = _), hnext]
  exact read_bind_ok hr

theorem group_read {r : Reader AndOr} {body : AndOr} {right : Token} (hr : right.kind = .rparen)
    (hhead : nextIs [.rparen] ts = false) (hbody : r.read ts = .ok (body, right :: tail)) :
    (group r).read ts = .ok (body, tail) := by
  have hinside : r.inside.read ts = .ok (body, right :: tail) := by simp only [inside, hbody]
  rw [group, read_bind_ok (rfl : (upcoming [.rparen]).read ts = _), hhead]
  refine (read_bind_ok hinside).trans ?_
  exact read_bind_ok (expect_cons (by simp [hr]))

theorem subshell_read {allowance : Nat} {body : AndOr} {left right : Token}
    (hl : left.kind = .lparen) (hr : right.kind = .rparen) (hhead : nextIs [.rparen] ts = false)
    (hbody : (andOr allowance).read ts = .ok (body, right :: tail)) :
    (subshell (allowance + 1)).read (left :: ts) = .ok (body, tail) := by
  rw [subshell, read_bind_ok (expect_cons (by simp [hl]))]
  exact group_read hr hhead hbody

mutual

theorem stage_read : ∀ (s : Stage) {ts tail : List Token} {allowance : Nat}, s.Yields ts →
    (∀ t ∈ ts, t.WellSpelled) → s.nesting ≤ allowance → nextIs partKinds tail = false →
      (stage allowance).read (ts ++ tail) = .ok (s, tail)
  | .command c, ts, tail, allowance, h, hs, _, ht => by
      cases h with
      | command hc =>
          obtain ⟨t, us, hts, hk⟩ := Command.Parts.head hc hc.ne_nil
          have hl : nextIs [.lparen] (ts ++ tail) = false := by
            rw [hts, List.cons_append, nextIs_cons]
            intro hl
            rw [List.mem_singleton.mp hl] at hk
            exact absurd hk (by decide)
          rw [stage, stageOf, read_bind_ok (rfl : (upcoming [.lparen]).read (ts ++ tail) = _), hl]
          exact read_bind_ok (command_read hc hs ht)
  | .subshell body, _, tail, allowance, h, hs, hn, _ => by
      cases h with
      | @subshell _ left right ts hl hbody hr =>
          cases allowance with
          | zero => exact absurd hn (Nat.not_succ_le_zero _)
          | succ allowance =>
              have hs' : ∀ t ∈ ts, t.WellSpelled := fun t ht => hs t (by simp [ht])
              have hclose : ∀ kinds, .rparen ∉ kinds → nextIs kinds (right :: tail) = false := by
                intro kinds hk
                rwa [nextIs_cons, hr]
              have hread := andOr_read body hbody hs' (Nat.le_of_succ_le_succ hn)
                (hclose _ (by decide)) (hclose _ (by decide)) (hclose _ (by decide))
              have hhead : nextIs [.rparen] (ts ++ right :: tail) = false := by
                obtain ⟨t, us, rfl, hk⟩ := hbody.head
                rw [List.cons_append, nextIs_cons]
                intro ht
                rw [List.mem_singleton.mp ht] at hk
                exact absurd hk (by decide)
              rw [stage, List.cons_append, List.append_assoc]
              exact stageOf_subshell hl (subshell_read hl hr hhead hread)

theorem pipeline_read : ∀ (p : Pipeline) {ts tail : List Token} {allowance : Nat}, p.Yields ts →
    (∀ t ∈ ts, t.WellSpelled) → p.nesting ≤ allowance → nextIs partKinds tail = false →
      nextIs [.pipe] tail = false → (pipeline allowance).read (ts ++ tail) = .ok (p, tail)
  | .single s, ts, tail, allowance, h, hs, hn, ht, hp => by
      cases h with
      | single h => exact pipelineOf_single (stage_read s h hs hn ht) hp
  | .pipe s rest, _, tail, allowance, h, hs, hn, ht, hp => by
      cases h with
      | @pipe _ _ bar ts us h hb hrest =>
          have hbar : nextIs partKinds (bar :: (us ++ tail)) = false := by
            rw [nextIs_cons, hb]
            decide
          obtain ⟨hs₁, hs⟩ := List.forall_mem_append.mp hs
          obtain ⟨_, hs₂⟩ := List.forall_mem_cons.mp hs
          rw [List.append_assoc]
          exact pipelineOf_pipe
            (stage_read s h hs₁ (Nat.le_trans (Nat.le_max_left _ _) hn) hbar) hb
            (pipeline_read rest hrest hs₂ (Nat.le_trans (Nat.le_max_right _ _) hn) ht hp)

theorem andOr_read : ∀ (a : AndOr) {ts tail : List Token} {allowance : Nat}, a.Yields ts →
    (∀ t ∈ ts, t.WellSpelled) → a.nesting ≤ allowance → nextIs partKinds tail = false →
      nextIs [.pipe] tail = false → nextIs Token.Kind.logical tail = false →
        (andOr allowance).read (ts ++ tail) = .ok (a, tail)
  | .single p, ts, tail, allowance, h, hs, hn, ht, hp, hl => by
      cases h with
      | single h => exact andOrOf_single (pipeline_read p h hs hn ht hp) hl
  | .chain p op rest, _, tail, allowance, h, hs, hn, ht, hp, hl => by
      cases h with
      | @chain _ _ _ t ts us h hk hrest =>
          have hop : nextIs partKinds (t :: (us ++ tail)) = false := by
            rw [nextIs_cons, hk]
            cases op <;> decide
          have hop' : nextIs [.pipe] (t :: (us ++ tail)) = false := by
            rw [nextIs_cons, hk]
            cases op <;> decide
          obtain ⟨hs₁, hs⟩ := List.forall_mem_append.mp hs
          obtain ⟨hop₁, hs₂⟩ := List.forall_mem_cons.mp hs
          rw [List.append_assoc]
          exact andOrOf_chain
            (pipeline_read p h hs₁ (Nat.le_trans (Nat.le_max_left _ _) hn) hop hop')
            hop₁ hk
            (andOr_read rest hrest hs₂ (Nat.le_trans (Nat.le_max_right _ _) hn) ht hp hl)

end

theorem line_read {body : AndOr} {limit : Nat} (h : body.Yields ts)
    (hs : ∀ t ∈ ts, t.WellSpelled) (hn : body.nesting ≤ limit) :
    (line limit).read ts = .ok (.sequence body, []) := by
  have hread : (andOr limit).read (ts ++ []) = .ok (body, []) :=
    andOr_read body h hs hn rfl rfl rfl
  obtain ⟨t, us, rfl, _⟩ := h.head
  rw [List.append_nil] at hread
  simp only [line, hread]

/-- The progress of a line agrees with the grammar. -/
theorem accepts_of_yields {body : AndOr} {limit : Nat} (h : body.Yields ts)
    (hs : ∀ t ∈ ts, t.WellSpelled) (hn : body.nesting ≤ limit) : Progress.Accepts limit ts := by
  have hline := line_meets limit h.ne_nil hs
  rw [line_read h hs hn] at hline
  obtain ⟨taken, hts, _, haccepts, _⟩ := hline
  rwa [hts, List.append_nil]

end Reader
end ShellGrammar
