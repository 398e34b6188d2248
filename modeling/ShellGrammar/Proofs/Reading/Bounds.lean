import ShellGrammar.Proofs.Reading.Completeness

/-!
What readers keep to, whatever the texts of the tokens. With `n` subshells allowed no reader enters
more than `n` without leaving them, nor builds a tree in which more are nested; where one stops for
a text that it cannot use, there is a token whose text does not suit its kind. Each way of building
readers passes these bounds on, so the levels of the grammar keep to them by how they are built.
-/
namespace ShellGrammar
variable {α β : Type} {all : List Token} {n : Nat} {kinds : List Token.Kind}

namespace Reader

/-- At most `n` subshells are left open, and if a text cannot be used, there is a token whose text
does not suit its kind. -/
structure Stop.Bounded (all : List Token) (n : Nat) (stop : Stop) : Prop where
  opened : stop.opened ≤ n
  misspelled : ∀ e, stop.reason = .build e → ∃ t ∈ all, ¬ t.WellSpelled

theorem Stop.bounded_fault {f : Fault} {rest : List Token} : Bounded all n ⟨.fault f, rest, 0⟩ :=
  ⟨Nat.zero_le n, nofun⟩

def Kept (all : List Token) (n : Nat) (Q : α → Prop) : Except Stop (α × List Token) → Prop
  | .ok (a, rest) => rest ⊆ all ∧ Q a
  | .error stop => stop.Bounded all n

/-- From tokens among `all` the reader makes what satisfies `Q` and leaves tokens among them, or it
stops within the bounds. -/
def Keeps (all : List Token) (n : Nat) (r : Reader α) (Q : α → Prop) : Prop :=
  ∀ ts, ts ⊆ all → Kept all n Q (r.read ts)

namespace Keeps
variable {r : Reader α} {next : α → Reader β} {P Q : α → Prop} {R : β → Prop}

theorem pure {a : α} (h : Q a) : Keeps all n (Pure.pure a) Q := fun _ hts => ⟨hts, h⟩

theorem bind (h : Keeps all n r P) (hnext : ∀ a, P a → Keeps all n (next a) R) :
    Keeps all n (r >>= next) R := by
  intro ts hts
  have hr := h ts hts
  rw [read_bind]
  cases hread : r.read ts with
  | ok p =>
      rw [hread] at hr
      exact hnext p.1 hr.2 p.2 hr.1
  | error stop =>
      rw [hread] at hr
      exact hr

theorem stop {f : Fault} : Keeps all n (Reader.stop (.fault f)) Q := fun _ _ => Stop.bounded_fault

theorem lift {e : Except BuildError α} (hok : ∀ a, e = .ok a → Q a)
    (herror : ∀ err, e = .error err → ∃ t ∈ all, ¬ t.WellSpelled) :
    Keeps all n (Reader.lift e) Q := by
  cases e with
  | ok a => exact pure (hok a rfl)
  | error err => exact fun _ _ => ⟨Nat.zero_le n, fun _ _ => herror err rfl⟩

theorem upcoming : Keeps all n (Reader.upcoming kinds) fun _ => True :=
  fun _ hts => ⟨hts, trivial⟩

theorem expect : Keeps all n (Reader.expect kinds) fun t => t ∈ all ∧ t.kind ∈ kinds := by
  intro ts hts
  cases ts with
  | nil => exact Stop.bounded_fault
  | cons t ts =>
      simp only [Reader.expect]
      split
      · next hk =>
        obtain ⟨ht, hrest⟩ := List.cons_subset.mp hts
        exact ⟨hrest, ht, by simpa using hk⟩
      · exact Stop.bounded_fault

theorem inside (h : Keeps all n r Q) : Keeps all (n + 1) r.inside Q := by
  intro ts hts
  have hr := h ts hts
  simp only [Reader.inside]
  cases hread : r.read ts with
  | ok p =>
      rw [hread] at hr
      exact hr
  | error stop =>
      rw [hread] at hr
      exact ⟨Nat.succ_le_succ hr.opened, hr.misspelled⟩

/-- What holds of each item holds of all that are read. -/
theorem many {item : Token → Reader α}
    (h : ∀ t ∈ all, t.kind ∈ kinds → Keeps all n (item t) Q) :
    Keeps all n (Reader.many kinds item) fun as => ∀ a ∈ as, Q a := by
  intro ts hts
  change Kept all n _ (readMany kinds item ts)
  fun_induction readMany kinds item ts with
  | case1 => exact ⟨hts, by simp⟩
  | case2 t ts hk a middle ha as rest hm ih =>
      obtain ⟨ht, hts⟩ := List.cons_subset.mp hts
      have hitem := h t ht (by simpa using hk) ts hts
      rw [ha] at hitem
      have hmore := ih hitem.1
      rw [hm] at hmore
      exact ⟨hmore.1, List.forall_mem_cons.mpr ⟨hitem.2, hmore.2⟩⟩
  | case3 t ts hk a middle ha stop hm ih =>
      obtain ⟨ht, hts⟩ := List.cons_subset.mp hts
      have hitem := h t ht (by simpa using hk) ts hts
      rw [ha] at hitem
      have hmore := ih hitem.1
      rw [hm] at hmore
      exact hmore
  | case4 t ts hk stop ha =>
      obtain ⟨ht, hts⟩ := List.cons_subset.mp hts
      have hitem := h t ht (by simpa using hk) ts hts
      rw [ha] at hitem
      exact hitem
  | case5 => exact ⟨hts, by simp⟩

end Keeps

theorem redirectionAfter_keeps {op : Token} (ht : op ∈ all)
    (hk : op.kind ∈ Token.Kind.redirections) :
    Keeps all n (redirectionAfter op) fun _ => True := by
  refine Keeps.bind .expect fun target _ => ?_
  refine Keeps.lift (fun _ _ => trivial) fun err herr => ⟨op, ht, fun hs => ?_⟩
  obtain ⟨o, ho⟩ := RedirectOp.exists_of_mem hk
  rw [Redirection.build_of_kind hs ho] at herr
  cases herr

theorem redirection_keeps : Keeps all n redirection fun _ => True :=
  Keeps.bind .expect fun _ hop => redirectionAfter_keeps hop.1 hop.2

theorem part_keeps {t : Token} (ht : t ∈ all) (hk : t.kind ∈ partKinds) :
    Keeps all n (part t) fun _ => True := by
  rw [part]
  split
  · exact Keeps.pure trivial
  · next hw =>
    have hr : t.kind ∈ Token.Kind.redirections := (List.mem_cons.mp hk).resolve_left hw
    exact (redirectionAfter_keeps ht hr).bind fun _ _ => .pure trivial

theorem command_keeps : Keeps all n command fun _ => True := by
  refine Keeps.bind (.many fun t => part_keeps) fun parts _ => ?_
  cases parts with
  | nil => exact Keeps.stop
  | cons part parts =>
      refine Keeps.lift (fun _ _ => trivial) fun err herr => ?_
      obtain ⟨c, hc, _⟩ := Command.exists_ofParts (List.cons_ne_nil part parts)
      rw [hc] at herr
      cases herr

theorem stageOf_keeps {r : Reader AndOr} (h : Keeps all n r fun body => body.nesting + 1 ≤ n) :
    Keeps all n (stageOf r) fun s => s.nesting ≤ n := by
  refine Keeps.bind .upcoming fun b _ => ?_
  split
  · refine h.bind fun body hbody => .pure ?_
    simpa only [Stage.nesting] using hbody
  · refine command_keeps.bind fun c _ => .pure ?_
    exact Nat.zero_le n

theorem pipelineOf_keeps {r : Reader Stage} (h : Keeps all n r fun s => s.nesting ≤ n) :
    Keeps all n (pipelineOf r) fun p => p.nesting ≤ n := by
  refine h.bind fun first hfirst => Keeps.bind (.many fun _ _ _ => h) fun others hothers => ?_
  refine Keeps.lift (fun p hp => ?_) fun err herr => nomatch herr
  obtain ⟨s, hs, hnesting⟩ := p.exists_stage_nesting
  rw [Pipeline.build_eq_ok_iff.mp hp] at hs
  rw [← hnesting]
  rcases List.mem_cons.mp hs with rfl | hs
  · exact hfirst
  · exact hothers s hs

end Reader

namespace AndOr
variable {first : Pipeline} {others : List (String × Pipeline)}

theorem exists_of_ofTexts_error {err : BuildError} (h : ofTexts first others = .error err) :
    ∃ o ∈ others, LogicalOp.ofText? o.1 = none := by
  induction others generalizing first err with
  | nil => cases h
  | cons o others ih =>
      obtain ⟨text, p⟩ := o
      simp only [ofTexts, bind, Except.bind] at h
      split at h
      · next hop =>
        refine ⟨_, List.mem_cons_self, ?_⟩
        rw [LogicalOp.read] at hop
        cases hread : LogicalOp.ofText? text with
        | none => rfl
        | some op =>
            rw [hread] at hop
            cases hop
      · split at h
        · next hrest =>
          obtain ⟨o, ho, hnone⟩ := ih hrest
          exact ⟨o, List.mem_cons_of_mem _ ho, hnone⟩
        · cases h

end AndOr

namespace Reader

theorem andOrOf_keeps {r : Reader Pipeline} (h : Keeps all n r fun p => p.nesting ≤ n) :
    Keeps all n (andOrOf r) fun a => a.nesting ≤ n := by
  refine h.bind fun first hfirst => ?_
  have hitem : ∀ t ∈ all, t.kind ∈ Token.Kind.logical →
      Keeps all n (do return (t.text, ← r)) fun o =>
        (∃ t ∈ all, t.kind ∈ Token.Kind.logical ∧ t.text = o.1) ∧ o.2.nesting ≤ n :=
    fun t ht hk => h.bind fun p hp => .pure ⟨⟨t, ht, hk, rfl⟩, hp⟩
  refine Keeps.bind (.many hitem) fun others hothers => ?_
  refine Keeps.lift (fun a ha => ?_) fun err herr => ?_
  · obtain ⟨p, hp, hnesting⟩ := a.exists_operand_nesting
    rw [(AndOr.build_eq_ok_iff.mp ha).1] at hp
    rw [← hnesting]
    rcases List.mem_cons.mp hp with rfl | hp
    · exact hfirst
    · obtain ⟨o, ho, rfl⟩ := List.mem_map.mp hp
      exact (hothers o ho).2
  · rw [AndOr.build_pairs] at herr
    obtain ⟨o, ho, hnone⟩ := AndOr.exists_of_ofTexts_error herr
    obtain ⟨⟨t, ht, hk, htext⟩, _⟩ := hothers o ho
    refine ⟨t, ht, fun hs => ?_⟩
    obtain ⟨op, hop⟩ := LogicalOp.exists_of_mem hk
    rw [← htext, LogicalOp.text_of_kind hs hop, LogicalOp.ofText?_text] at hnone
    cases hnone

/-- The deepest tree with `n` subshells allowed is a subshell with `n - 1` allowed in it. -/
theorem subshell_keeps : ∀ n, Keeps all n (subshell n) fun body => body.nesting + 1 ≤ n
  | 0 => Keeps.stop
  | n + 1 => by
      have hbody : Keeps all n (andOrOf (pipelineOf (stageOf (subshell n))))
          fun a => a.nesting ≤ n :=
        andOrOf_keeps (pipelineOf_keeps (stageOf_keeps (subshell_keeps n)))
      refine Keeps.bind .expect fun _ _ => Keeps.bind .upcoming fun b _ => ?_
      split
      · exact Keeps.bind (P := fun _ => False) .stop fun _ h => h.elim
      · refine Keeps.bind hbody.inside fun body hn => Keeps.bind .expect fun _ _ => .pure ?_
        exact Nat.succ_le_succ hn

theorem stage_keeps : Keeps all n (stage n) fun s => s.nesting ≤ n :=
  stageOf_keeps (subshell_keeps n)

theorem pipeline_keeps : Keeps all n (pipeline n) fun p => p.nesting ≤ n :=
  pipelineOf_keeps stage_keeps

theorem andOr_keeps : Keeps all n (andOr n) fun a => a.nesting ≤ n :=
  andOrOf_keeps pipeline_keeps

theorem line_keeps : Keeps all n (line n) fun _ => True := by
  intro ts hts
  cases ts with
  | nil => exact ⟨hts, trivial⟩
  | cons t ts =>
      have hbody := andOr_keeps (n := n) (t :: ts) hts
      simp only [line]
      split
      · next hread =>
        rw [hread] at hbody
        exact ⟨hbody.1, trivial⟩
      · exact Stop.bounded_fault
      · next hread =>
        rw [hread] at hbody
        exact hbody

end Reader
end ShellGrammar
