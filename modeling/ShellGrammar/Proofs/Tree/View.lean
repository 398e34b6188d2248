import ShellGrammar.Proofs.Text.Quotation
import ShellGrammar.Proofs.Tree.Building

/-!
The view that all nodes share tells every node from every other: its kind, its label and its
children determine it. The operators of an and-or list are read off its label, for no operator
holds the blank that joins them; whether a command has words shows in its first child. What is
computed from a node and then from its children in order is computed along the walk through it.
-/
namespace ShellGrammar

/-- A list is determined by what of its elements determines them. -/
theorem map_eq_of_map_eq {α β γ : Type} {f : α → β} {g : α → γ} {as bs : List α}
    (hfg : ∀ a ∈ as, ∀ b, f a = f b → g a = g b) (h : as.map f = bs.map f) :
    as.map g = bs.map g := by
  induction as generalizing bs with
  | nil =>
      cases bs with
      | nil => rfl
      | cons b bs => cases h
  | cons a as ih =>
      cases bs with
      | nil => cases h
      | cons b bs =>
          obtain ⟨hhead, htail⟩ := List.cons.inj h
          obtain ⟨ha, has⟩ := List.forall_mem_cons.mp hfg
          rw [List.map_cons, List.map_cons, ha b hhead, ih has htail]

theorem LogicalOp.blank_not_mem_text (op : LogicalOp) : ' ' ∉ op.text.toList := by
  cases op <;> decide +kernel

namespace Node

/-- The label names the operators one by one. -/
theorem operators_of_label {a b : AndOr} (h : (andOr a).label = (andOr b).label) :
    a.operators = b.operators := by
  have hblank (ops : List LogicalOp) : ∀ s ∈ ops.map (·.text), ' ' ∉ s.toList :=
    List.forall_mem_map.mpr fun op _ => op.blank_not_mem_text
  simp only [label, List.isEmpty_iff] at h
  split at h <;> split at h
  · next ha hb => rw [ha, hb]
  · cases h
  · cases h
  · next ha hb =>
    have htexts := Text.join_inj (hblank a.operators) (by simpa using ha) (hblank b.operators)
      (by simpa using hb) (Option.some.inj h)
    exact (List.map_inj_right fun _ _ => LogicalOp.text_inj).mp htexts

theorem stage_inj {s t : Stage} (h : s.node = t.node) : s = t := by
  cases s <;> cases t <;> cases h <;> rfl

theorem command_of_children {c d : Command} (h : (command c).children = (command d).children) :
    c = d := by
  have hredirections {rs qs : List Redirection} (h : rs.map redirection = qs.map redirection) :
      rs = qs :=
    (List.map_inj_right fun _ _ => redirection.inj).mp h
  cases c with
  | simple s rs =>
      cases d with
      | simple t qs =>
          obtain ⟨hs, hrs⟩ := List.cons.inj h
          cases hs
          cases hredirections hrs
          rfl
      | bare q qs => cases h
  | bare r rs =>
      cases d with
      | simple t qs => cases h
      | bare q qs =>
          obtain ⟨hr, hrs⟩ := List.cons.inj h
          cases hr
          cases hredirections hrs
          rfl

/-- Nodes that look the same are the same. -/
theorem ext_view {a b : Node} (hkind : a.kind = b.kind) (hlabel : a.label = b.label)
    (hchildren : a.children = b.children) : a = b := by
  cases a <;> cases b <;> cases hkind
  case empty.empty => rfl
  case sequence.sequence body other => rw [andOr.inj (List.singleton_inj.mp hchildren)]
  case andOr.andOr a b =>
    have hoperands := (List.map_inj_right fun _ _ => pipeline.inj).mp hchildren
    rw [AndOr.ext_operands hoperands (operators_of_label hlabel)]
  case pipeline.pipeline p q =>
    have hstages := (List.map_inj_right fun _ _ => stage_inj).mp hchildren
    rw [Pipeline.ext_stages hstages]
  case command.command c d => rw [command_of_children hchildren]
  case simpleCommand.simpleCommand s t =>
    have hwords := (List.map_inj_right fun _ _ => word.inj).mp hchildren
    cases s
    cases t
    cases hwords
    rfl
  case redirection.redirection r q =>
    have hop := RedirectOp.text_inj (Option.some.inj hlabel)
    have htarget := word.inj (List.singleton_inj.mp hchildren)
    cases r
    cases q
    cases hop
    cases htarget
    rfl
  case subshell.subshell body other => rw [andOr.inj (List.singleton_inj.mp hchildren)]
  case word.word v w =>
    cases v
    cases w
    cases hlabel
    rfl

/-- The node and all nodes below it, each before its children, with their depths below `depth`. -/
def levels (n : Node) (depth : Nat) : List (Nat × Node) :=
  (depth, n) :: n.children.attach.flatMap fun ⟨c, _⟩ => c.levels (depth + 1)
termination_by n.weight
decreasing_by exact weight_lt_of_mem_children ‹_›

theorem levels_eq (n : Node) (depth : Nat) :
    n.levels depth = (depth, n) :: n.children.flatMap fun c => c.levels (depth + 1) := by
  rw [levels]
  simp

/-- Recursions over a node and over its levels agree if they agree on the node itself and deal with
the children one after the other. -/
theorem eq_map_levels {α : Type} {f : Node → Nat → List α} {g : Nat × Node → α}
    (hf : ∀ n depth, f n depth = g (depth, n) :: n.children.flatMap fun c => f c (depth + 1))
    (n : Node) (depth : Nat) : f n depth = (n.levels depth).map g := by
  have hchildren : n.children.map (fun c => f c (depth + 1)) =
      n.children.map (fun c => (c.levels (depth + 1)).map g) :=
    List.map_congr_left fun c hc => eq_map_levels hf c (depth + 1)
  rw [hf, levels_eq, List.map_cons, List.map_flatMap, List.flatMap_def, hchildren, List.flatMap_def]
termination_by n.weight
decreasing_by exact weight_lt_of_mem_children hc

theorem map_levels_snd (n : Node) (depth : Nat) : (n.levels depth).map Prod.snd = n.walk :=
  (eq_map_levels (f := fun n _ => n.walk) (fun n _ => walk_eq n) n depth).symm

theorem eq_map_walk {α : Type} {f : Node → List α} {g : Node → α}
    (hf : ∀ n, f n = g n :: n.children.flatMap f) (n : Node) : f n = n.walk.map g := by
  rw [← map_levels_snd n 0, List.map_map]
  exact eq_map_levels (f := fun n _ => f n) (fun n _ => hf n) n 0

end Node
end ShellGrammar
