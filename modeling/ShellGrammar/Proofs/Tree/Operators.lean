import ShellGrammar.Tree.Build

/-!
The operators of redirections and of and-or lists. An operator is told by its text and by the kind
of its tokens alike: a text is read as the operator that has it, and a well spelled token of the
kind of an operator has its text.
-/
namespace ShellGrammar

theorem elim_eq_ok_iff {ε α : Type} {e : ε} {x : Option α} {a : α} :
    x.elim (.error e) Except.ok = .ok a ↔ x = some a := by
  cases x <;> simp

namespace RedirectOp
variable {text : String} {op op' : RedirectOp} {k : Token.Kind} {t : Token}

theorem ofText?_eq_some_iff : ofText? text = some op ↔ op.text = text := by
  refine ⟨fun h => ?_, fun h => h ▸ ofText?_text op⟩
  rw [ofText?] at h
  have htext := List.find?_some h
  exact beq_iff_eq.mp htext

theorem text_inj (h : op.text = op'.text) : op = op' :=
  Option.some.inj ((ofText?_eq_some_iff.mpr h).symm.trans (ofText?_text op'))

theorem read_eq_ok_iff : read text = .ok op ↔ op.text = text := by
  rw [read, elim_eq_ok_iff, ofText?_eq_some_iff]

theorem kind_mem (op : RedirectOp) : op.kind ∈ Token.Kind.redirections := by
  cases op <;> decide

theorem exists_of_mem (h : k ∈ Token.Kind.redirections) : ∃ op : RedirectOp, k = op.kind := by
  cases k <;> first
    | exact ⟨.input, rfl⟩
    | exact ⟨.output, rfl⟩
    | exact ⟨.append, rfl⟩
    | exact ⟨.heredoc, rfl⟩
    | exact absurd h (by decide)

theorem spelling?_kind (op : RedirectOp) : op.kind.spelling? = some op.text := by
  cases op <;> rfl

theorem text_of_kind (hs : t.WellSpelled) (h : t.kind = op.kind) : t.text = op.text :=
  hs _ (h ▸ op.spelling?_kind)

end RedirectOp

namespace LogicalOp
variable {text : String} {op op' : LogicalOp} {k : Token.Kind} {t : Token}

theorem ofText?_eq_some_iff : ofText? text = some op ↔ op.text = text := by
  refine ⟨fun h => ?_, fun h => h ▸ ofText?_text op⟩
  rw [ofText?] at h
  have htext := List.find?_some h
  exact beq_iff_eq.mp htext

theorem text_inj (h : op.text = op'.text) : op = op' :=
  Option.some.inj ((ofText?_eq_some_iff.mpr h).symm.trans (ofText?_text op'))

theorem read_eq_ok_iff : read text = .ok op ↔ op.text = text := by
  rw [read, elim_eq_ok_iff, ofText?_eq_some_iff]

theorem kind_mem (op : LogicalOp) : op.kind ∈ Token.Kind.logical := by
  cases op <;> decide

theorem exists_of_mem (h : k ∈ Token.Kind.logical) : ∃ op : LogicalOp, k = op.kind := by
  cases k <;> first
    | exact ⟨.and, rfl⟩
    | exact ⟨.or, rfl⟩
    | exact absurd h (by decide)

theorem spelling?_kind (op : LogicalOp) : op.kind.spelling? = some op.text := by
  cases op <;> rfl

theorem text_of_kind (hs : t.WellSpelled) (h : t.kind = op.kind) : t.text = op.text :=
  hs _ (h ▸ op.spelling?_kind)

end LogicalOp
end ShellGrammar
