import ShellGrammar.Tree.Node

/-!
How deep the subshells of a tree are nested. The number is computed level by level; it is the
greatest number of subshells on a path from the root down to a leaf.
-/
namespace ShellGrammar

mutual

def Stage.nesting : Stage → Nat
  | .command _ => 0
  | .subshell body => body.nesting + 1

def Pipeline.nesting : Pipeline → Nat
  | .single s => s.nesting
  | .pipe s rest => max s.nesting rest.nesting

def AndOr.nesting : AndOr → Nat
  | .single p => p.nesting
  | .chain p _ rest => max p.nesting rest.nesting

end

namespace Pipeline

theorem nesting_snoc (first s : Stage) (others : List Stage) :
    (ofStages first (others ++ [s])).nesting = max (ofStages first others).nesting s.nesting := by
  induction others generalizing first with
  | nil => simp only [List.nil_append, ofStages, nesting]
  | cons o others ih => simp only [List.cons_append, ofStages, nesting, ih, Nat.max_assoc]

theorem nesting_le_of_mem {s : Stage} : ∀ {p : Pipeline}, s ∈ p.stages → s.nesting ≤ p.nesting
  | .single _, h => by
      simp only [stages, List.mem_singleton] at h
      simp only [h, nesting, Nat.le_refl]
  | .pipe _ rest, h => by
      simp only [stages, List.mem_cons] at h
      simp only [nesting]
      rcases h with rfl | h
      · exact Nat.le_max_left _ _
      · exact Nat.le_trans (nesting_le_of_mem h) (Nat.le_max_right _ _)

theorem exists_stage_nesting : ∀ p : Pipeline, ∃ s ∈ p.stages, s.nesting = p.nesting
  | .single s => ⟨s, by simp [stages], by simp [nesting]⟩
  | .pipe s rest => by
      obtain ⟨t, ht, he⟩ := exists_stage_nesting rest
      by_cases h : rest.nesting ≤ s.nesting
      · exact ⟨s, by simp [stages], by simp [nesting, h]⟩
      · exact ⟨t, by simp [stages, ht], by simp only [nesting]; omega⟩

end Pipeline

namespace AndOr

theorem nesting_snoc (first p : Pipeline) (op : LogicalOp) (others : List (LogicalOp × Pipeline)) :
    (ofOperands first (others ++ [(op, p)])).nesting =
      max (ofOperands first others).nesting p.nesting := by
  induction others generalizing first with
  | nil => simp only [List.nil_append, ofOperands, nesting]
  | cons o others ih => simp only [List.cons_append, ofOperands, nesting, ih, Nat.max_assoc]

theorem nesting_le_of_mem {p : Pipeline} : ∀ {a : AndOr}, p ∈ a.operands → p.nesting ≤ a.nesting
  | .single _, h => by
      rw [operands_single, List.mem_singleton] at h
      simp only [h, nesting, Nat.le_refl]
  | .chain _ _ rest, h => by
      rw [operands_chain, List.mem_cons] at h
      simp only [nesting]
      rcases h with rfl | h
      · exact Nat.le_max_left _ _
      · exact Nat.le_trans (nesting_le_of_mem h) (Nat.le_max_right _ _)

theorem exists_operand_nesting : ∀ a : AndOr, ∃ p ∈ a.operands, p.nesting = a.nesting
  | .single p => ⟨p, by simp [operands_single], by simp [nesting]⟩
  | .chain p op rest => by
      obtain ⟨q, hq, he⟩ := exists_operand_nesting rest
      by_cases h : rest.nesting ≤ p.nesting
      · exact ⟨p, by simp [operands_chain], by simp [nesting, h]⟩
      · exact ⟨q, by simp [operands_chain, hq], by simp only [nesting]; omega⟩

end AndOr

namespace Node

def nesting : Node → Nat
  | sequence body | andOr body => body.nesting
  | subshell body => body.nesting + 1
  | pipeline p => p.nesting
  | empty | command _ | simpleCommand _ | redirection _ | word _ => 0

def isSubshell : Node → Bool
  | subshell _ => true
  | _ => false

/-- The nodes from one down to a leaf, each a child of the one before it. -/
inductive Path : Node → List Node → Prop
  | leaf {n : Node} : n.children = [] → Path n [n]
  | child {n c : Node} {path : List Node} : c ∈ n.children → Path c path → Path n (n :: path)

theorem nesting_stage (s : Stage) : s.node.nesting = s.nesting := by
  cases s <;> simp only [Stage.node, nesting, Stage.nesting]

theorem nesting_pipeline (p : Pipeline) : (pipeline p).nesting = p.nesting := rfl

theorem nesting_child_le {n c : Node} (h : c ∈ n.children) :
    n.isSubshell.toNat + c.nesting ≤ n.nesting := by
  cases n with
  | empty | word => simp [children] at h
  | sequence body | subshell body =>
      simp only [children, List.mem_singleton] at h
      subst h
      simp [isSubshell, nesting, Nat.add_comm]
  | andOr a =>
      obtain ⟨p, hp, rfl⟩ := List.mem_map.1 h
      simpa [isSubshell, nesting] using AndOr.nesting_le_of_mem hp
  | pipeline p =>
      obtain ⟨s, hs, rfl⟩ := List.mem_map.1 h
      simpa [isSubshell, nesting_stage, nesting_pipeline] using Pipeline.nesting_le_of_mem hs
  | command cmd =>
      simp only [children, List.mem_append, Option.mem_toList, Option.map_eq_some_iff,
        List.mem_map] at h
      rcases h with ⟨s, _, rfl⟩ | ⟨r, _, rfl⟩ <;> simp [isSubshell, nesting]
  | simpleCommand s =>
      obtain ⟨w, _, rfl⟩ := List.mem_map.1 h
      simp [isSubshell, nesting]
  | redirection r =>
      simp only [children, List.mem_singleton] at h
      subst h
      simp [isSubshell, nesting]

theorem exists_child_nesting {n : Node} (h : n.children ≠ []) :
    ∃ c ∈ n.children, n.isSubshell.toNat + c.nesting = n.nesting := by
  cases n with
  | empty | word => simp [children] at h
  | sequence body | subshell body =>
      exact ⟨andOr body, by simp [children], by simp [isSubshell, nesting, Nat.add_comm]⟩
  | andOr a =>
      obtain ⟨p, hp, he⟩ := AndOr.exists_operand_nesting a
      exact ⟨pipeline p, List.mem_map_of_mem hp, by simp [isSubshell, nesting, he]⟩
  | pipeline p =>
      obtain ⟨s, hs, he⟩ := Pipeline.exists_stage_nesting p
      refine ⟨s.node, List.mem_map_of_mem hs, ?_⟩
      simp [isSubshell, nesting_stage, nesting_pipeline, he]
  | command _ | simpleCommand _ | redirection _ =>
      obtain ⟨c, hc⟩ := List.exists_mem_of_ne_nil _ h
      refine ⟨c, hc, ?_⟩
      have := nesting_child_le hc
      simp only [nesting] at this ⊢
      omega

theorem nesting_leaf {n : Node} (h : n.children = []) : n.isSubshell = false ∧ n.nesting = 0 := by
  cases n with
  | sequence | subshell | andOr => cases h
  | pipeline p =>
      obtain ⟨s, hs, _⟩ := Pipeline.exists_stage_nesting p
      rw [List.map_eq_nil_iff.mp h] at hs
      cases hs
  | empty | command _ | simpleCommand _ | redirection _ | word _ => exact ⟨rfl, rfl⟩

theorem countP_path_le {n : Node} {path : List Node} (h : n.Path path) :
    path.countP isSubshell ≤ n.nesting := by
  induction h with
  | @leaf n hn =>
      simp [nesting_leaf hn]
  | @child n c path hc _ ih =>
      have hle := nesting_child_le hc
      rw [List.countP_cons]
      cases hs : n.isSubshell <;> simp [hs] at hle ⊢ <;> omega

theorem exists_path_countP (n : Node) :
    ∃ path, n.Path path ∧ path.countP isSubshell = n.nesting := by
  by_cases h : n.children = []
  · refine ⟨[n], .leaf h, ?_⟩
    simp [nesting_leaf h]
  · obtain ⟨c, hc, he⟩ := exists_child_nesting h
    obtain ⟨path, hp, hn⟩ := exists_path_countP c
    refine ⟨n :: path, .child hc hp, ?_⟩
    rw [List.countP_cons, hn, ← he]
    cases n.isSubshell <;> simp [Nat.add_comm]
termination_by n.weight
decreasing_by exact weight_lt_of_mem_children hc

theorem nesting_le_iff {n : Node} {m : Int} :
    n.nesting ≤ m ↔ ∀ path, n.Path path → path.countP isSubshell ≤ m := by
  refine ⟨fun h path hpath => ?_, fun h => ?_⟩
  · have hle := countP_path_le hpath
    omega
  · obtain ⟨path, hpath, hcount⟩ := exists_path_countP n
    exact hcount ▸ h path hpath

end Node
end ShellGrammar
