import ShellGrammar.Proofs.Tree.View
import ShellGrammar.Tree.Outline

/-!
Plain data of trees. The outline of a node, and the document that is made of the outline, belong to
that node alone: they hold its kind, its label and the outlines of its children, which determine it.
Walking through an outline meets what walking through the node meets.
-/
namespace ShellGrammar

theorem Node.Kind.name_inj {k l : Kind} (h : k.name = l.name) : k = l := by
  cases k <;> cases l <;> first | rfl | exact absurd h (by decide +kernel)

namespace Outline

mutual

/-- The outline and all outlines below it, each before its children. -/
def walk : Outline → List Outline
  | node kind label children => node kind label children :: walkList children

def walkList : List Outline → List Outline
  | [] => []
  | o :: os => o.walk ++ walkList os

end

theorem walkList_eq (os : List Outline) : walkList os = os.flatMap walk := by
  induction os with
  | nil => rfl
  | cons o os ih => rw [walkList, ih, List.flatMap_cons]

theorem label_json_inj {label label' : Option String}
    (h : label.elim Json.null Json.string = label'.elim Json.null Json.string) :
    label = label' := by
  cases label <;> cases label' <;> cases h <;> rfl

mutual

theorem json_inj : ∀ {o p : Outline}, o.json = p.json → o = p
  | .node kind label children, .node kind' label' children', h => by
      simp only [json, Json.object.injEq, List.cons.injEq, Prod.mk.injEq, Json.string.injEq,
        Json.array.injEq, true_and, and_true] at h
      obtain ⟨hkind, hlabel, hchildren⟩ := h
      rw [Node.Kind.name_inj hkind, label_json_inj hlabel, jsonList_inj hchildren]

theorem jsonList_inj : ∀ {os ps : List Outline}, jsonList os = jsonList ps → os = ps
  | [], [], _ => rfl
  | [], _ :: _, h | _ :: _, [], h => by cases h
  | o :: os, p :: ps, h => by
      obtain ⟨ho, hos⟩ := List.cons.inj h
      rw [json_inj ho, jsonList_inj hos]

end

end Outline

namespace Node

/-- By induction on the weight, since the children of a node are nodes of other types. -/
theorem outline_inj {a b : Node} (h : a.outline = b.outline) : a = b := by
  rw [outline_eq, outline_eq, Outline.node.injEq] at h
  obtain ⟨hkind, hlabel, hchildren⟩ := h
  have hsame : a.children.map id = b.children.map id :=
    map_eq_of_map_eq (fun c hc d hd => outline_inj hd) hchildren
  rw [List.map_id, List.map_id] at hsame
  exact ext_view hkind hlabel hsame
termination_by a.weight
decreasing_by exact weight_lt_of_mem_children hc

theorem walk_outline (n : Node) : n.outline.walk = n.walk.map outline := by
  refine eq_map_walk (f := fun n => n.outline.walk) (fun n => ?_) n
  rw [outline_eq, Outline.walk, Outline.walkList_eq, List.flatMap_map]

/-- Nodes have the same outline, and the same document, only if they are the same; and the outline
is walked through like the node: kinds, labels and numbers of children are those of its nodes. -/
theorem outline_faithful (a b n : Node) :
    (a.outline = b.outline ↔ a = b) ∧ (a.outline.json = b.outline.json ↔ a = b) ∧
      n.outline.walk.map (fun o => (o.kind.name, o.label, o.children.length)) =
        n.walk.map fun m => (m.kind.name, m.label, m.children.length) := by
  refine ⟨⟨outline_inj, congrArg outline⟩,
    ⟨fun h => outline_inj (Outline.json_inj h), congrArg fun m : Node => m.outline.json⟩, ?_⟩
  rw [walk_outline, List.map_map]
  refine List.map_congr_left fun m _ => ?_
  rw [Function.comp_apply, outline_eq]
  simp only [Outline.kind, Outline.label, Outline.children, List.length_map]

end Node
end ShellGrammar
