import ShellGrammar.Proofs.Tree.Operators

/-!
What the builders accept. A node is determined by its parts, and a builder accepts the parts of a
node of its kind and nothing else; what it makes of them is this node. So the types of the trees
hold what the builders check, and a reader that builds its trees from parts makes no other trees.
-/
namespace ShellGrammar

namespace Redirection
variable {op : String} {target : Option Node} {r : Redirection}

theorem build_eq_ok_iff :
    build op target = .ok r ↔ r.op.text = op ∧ some (.word r.target) = target := by
  constructor
  · intro h
    simp only [build, bind, Except.bind] at h
    split at h
    · cases h
    · next o ho =>
      split at h
      · cases h
        exact ⟨RedirectOp.read_eq_ok_iff.mp ho, rfl⟩
      · cases h
  · rintro ⟨hop, rfl⟩
    rw [build, RedirectOp.read_eq_ok_iff.mpr hop]
    rfl

/-- The token of an operator and a word are the parts of a redirection. -/
theorem build_of_kind {t : Token} {o : RedirectOp} (hs : t.WellSpelled) (h : t.kind = o.kind)
    (w : Word) : build t.text (some (.word w)) = .ok ⟨o, w⟩ :=
  build_eq_ok_iff.mpr ⟨(RedirectOp.text_of_kind hs h).symm, rfl⟩

end Redirection

theorem SimpleCommand.build_eq_ok_iff {words : List Word} {s : SimpleCommand} :
    build words = .ok s ↔ s.words = words := by
  cases words with
  | nil => exact iff_of_false nofun nofun
  | cons w ws =>
      obtain ⟨name, arguments⟩ := s
      simp [build, SimpleCommand.words, eq_comm]

namespace Command
variable {words : Option SimpleCommand} {redirections : List Redirection} {c : Command}

theorem build_eq_ok_iff :
    build words redirections = .ok c ↔ c.simple? = words ∧ c.redirections = redirections := by
  rw [build, elim_eq_ok_iff]
  constructor
  · intro h
    cases words with
    | some words =>
        cases h
        exact ⟨rfl, rfl⟩
    | none =>
        cases redirections <;> cases h
        exact ⟨rfl, rfl⟩
  · rintro ⟨rfl, rfl⟩
    exact ofParts?_parts c

end Command

namespace Pipeline

theorem stages_ne_nil (p : Pipeline) : p.stages ≠ [] := by
  cases p <;> simp [stages]

theorem ext_stages : ∀ {p q : Pipeline}, p.stages = q.stages → p = q
  | .single s, .single t, h => by rw [List.singleton_inj.mp h]
  | .single s, .pipe t rest, h => absurd (List.cons.inj h).2.symm rest.stages_ne_nil
  | .pipe s rest, .single t, h => absurd (List.cons.inj h).2 rest.stages_ne_nil
  | .pipe s rest, .pipe t rest', h => by
      obtain ⟨hs, hrest⟩ := List.cons.inj h
      rw [hs, ext_stages hrest]

theorem build_eq_ok_iff {stages : List Stage} {p : Pipeline} :
    build stages = .ok p ↔ p.stages = stages := by
  cases stages with
  | nil => exact iff_of_false nofun p.stages_ne_nil
  | cons s ss =>
      rw [build, Except.ok.injEq, ← stages_ofStages s ss]
      exact ⟨fun h => congrArg Pipeline.stages h.symm, fun h => ext_stages h.symm⟩

end Pipeline

namespace AndOr
variable {a : AndOr}

theorem operators_chain (p : Pipeline) (op : LogicalOp) (rest : AndOr) :
    (chain p op rest).operators = op :: rest.operators := rfl

/-- There is one operator between any two operands. -/
theorem ext_operands : ∀ {a b : AndOr}, a.operands = b.operands → a.operators = b.operators → a = b
  | .single p, .single q, h, _ => congrArg single (List.cons.inj h).1
  | .single p, .chain q op rest, _, h => by cases h
  | .chain p op rest, .single q, _, h => by cases h
  | .chain p op rest, .chain q op' rest', hoperands, hoperators => by
      have hops : op = op' ∧ rest.operators = rest'.operators := List.cons.inj hoperators
      rw [operands_chain, operands_chain, List.cons.injEq] at hoperands
      rw [hoperands.1, hops.1, ext_operands hoperands.2 hops.2]

theorem ofTexts_cons_eq_ok_iff {first p : Pipeline} {text : String}
    {others : List (String × Pipeline)} :
    ofTexts first ((text, p) :: others) = .ok a ↔
      ∃ op rest, op.text = text ∧ ofTexts p others = .ok rest ∧ a = .chain first op rest := by
  simp only [ofTexts, bind, Except.bind]
  constructor
  · intro h
    split at h
    · cases h
    · next op hop =>
      split at h
      · cases h
      · next rest hrest =>
        cases h
        exact ⟨op, rest, LogicalOp.read_eq_ok_iff.mp hop, hrest, rfl⟩
  · rintro ⟨op, rest, htext, hrest, rfl⟩
    rw [LogicalOp.read_eq_ok_iff.mpr htext, hrest]
    rfl

theorem ofTexts_eq_ok_iff {first : Pipeline} {others : List (String × Pipeline)} :
    ofTexts first others = .ok a ↔
      a.operands = first :: others.map Prod.snd ∧
        a.operators.map LogicalOp.text = others.map Prod.fst := by
  induction others generalizing first a with
  | nil =>
      rw [ofTexts, Except.ok.injEq]
      constructor
      · rintro rfl
        exact ⟨rfl, rfl⟩
      · rintro ⟨hoperands, hoperators⟩
        exact (ext_operands hoperands (List.map_eq_nil_iff.mp hoperators)).symm
  | cons o others ih =>
      obtain ⟨text, p⟩ := o
      rw [ofTexts_cons_eq_ok_iff]
      constructor
      · rintro ⟨op, rest, rfl, hrest, rfl⟩
        obtain ⟨hoperands, hoperators⟩ := ih.mp hrest
        rw [operands_chain, operators_chain, hoperands, List.map_cons, List.map_cons, List.map_cons,
          hoperators]
        exact ⟨rfl, rfl⟩
      · rintro ⟨hoperands, hoperators⟩
        cases a with
        | single q => cases hoperators
        | chain q op rest =>
            rw [operands_chain, List.map_cons, List.cons.injEq] at hoperands
            rw [operators_chain, List.map_cons, List.map_cons, List.cons.injEq] at hoperators
            obtain ⟨rfl, hrest⟩ := hoperands
            exact ⟨op, rest, hoperators.1, ih.mpr ⟨hrest, hoperators.2⟩, rfl⟩

/-- Operators and operands that come in pairs are as many as they have to be. -/
theorem build_pairs (first : Pipeline) (others : List (String × Pipeline)) :
    build (first :: others.map Prod.snd) (others.map Prod.fst) = ofTexts first others := by
  rw [build, List.length_map, List.length_map, if_pos rfl, List.zip_map', List.map_id']

theorem build_eq_ok_iff {operands : List Pipeline} {operators : List String} :
    build operands operators = .ok a ↔
      a.operands = operands ∧ a.operators.map LogicalOp.text = operators := by
  constructor
  · intro h
    cases operands with
    | nil => cases h
    | cons p ps =>
        rw [build] at h
        split at h
        · next hlength =>
          obtain ⟨hoperands, hoperators⟩ := ofTexts_eq_ok_iff.mp h
          rw [List.map_snd_zip (Nat.le_of_eq hlength.symm)] at hoperands
          rw [List.map_fst_zip (Nat.le_of_eq hlength)] at hoperators
          exact ⟨hoperands, hoperators⟩
        · cases h
  · rintro ⟨rfl, rfl⟩
    have hoperands : a.operands =
        a.first :: (a.others.map fun o => (o.1.text, o.2)).map Prod.snd := by
      rw [operands, List.map_map]
      rfl
    have hoperators : a.operators.map LogicalOp.text =
        (a.others.map fun o => (o.1.text, o.2)).map Prod.fst := by
      rw [operators, List.map_map, List.map_map]
      rfl
    rw [hoperands, hoperators, build_pairs, ofTexts_eq_ok_iff]
    exact ⟨hoperands, hoperators⟩

end AndOr

namespace Node
variable {part : Option Node} {n : Node}

theorem bodyOf_map_eq_ok_iff {e : BuildError} {make : AndOr → Node} :
    (bodyOf e part).map make = .ok n ↔ ∃ body, part = some (andOr body) ∧ n = make body := by
  constructor
  · intro h
    unfold bodyOf at h
    split at h <;> cases h
    exact ⟨_, rfl, rfl⟩
  · rintro ⟨body, rfl, rfl⟩
    rfl

theorem buildSubshell_eq_ok_iff :
    buildSubshell part = .ok n ↔ ∃ body, part = some (andOr body) ∧ n = subshell body :=
  bodyOf_map_eq_ok_iff

theorem buildSequence_eq_ok_iff :
    buildSequence part = .ok n ↔ ∃ body, part = some (andOr body) ∧ n = sequence body :=
  bodyOf_map_eq_ok_iff

end Node
end ShellGrammar
