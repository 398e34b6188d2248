import ShellGrammar.Settings

/-!
Entries of layers, and chains of layers. A layer is followed by its parent, the parent by its own
parent, and so on: this is the chain of the layer. Along it the layers get older, so none comes
twice, and a change of the entries of a layer has no influence on it.
-/
namespace ShellGrammar.Settings

section Entries
variable {es : List (String × Value)} {key k : String} {v : Value}

theorem lookup_cons_ite {k' : String} {w : Value} :
    ((k', w) :: es).lookup k = if k = k' then some w else es.lookup k := by
  rw [List.lookup_cons]
  by_cases h : k = k'
  · rw [if_pos h, beq_iff_eq.mpr h]
  · rw [if_neg h, beq_eq_false_iff_ne.mpr h]

theorem lookup_putEntry :
    (putEntry key v es).lookup k = if k = key then some v else es.lookup k := by
  induction es with
  | nil => rw [putEntry, lookup_cons_ite]
  | cons e es ih =>
      obtain ⟨k', w⟩ := e
      rw [putEntry]
      split
      · next hk =>
        subst hk
        rw [lookup_cons_ite, lookup_cons_ite]
        split <;> rfl
      · next hk =>
        rw [lookup_cons_ite, lookup_cons_ite, ih]
        by_cases h : k = key
        · rw [if_pos h, if_pos h, if_neg (h ▸ Ne.symm hk)]
        · rw [if_neg h, if_neg h]

theorem lookup_filter_ne :
    (es.filter (·.1 ≠ key)).lookup k = if k = key then none else es.lookup k := by
  induction es with
  | nil => simp
  | cons e es ih =>
      obtain ⟨k', w⟩ := e
      by_cases hk : k' = key
      · rw [List.filter_cons_of_neg (by simpa using hk), ih, lookup_cons_ite, hk]
        split <;> rfl
      · rw [List.filter_cons_of_pos (by simpa using hk), lookup_cons_ite, lookup_cons_ite, ih]
        by_cases h : k = key
        · rw [if_pos h, if_pos h, if_neg (h ▸ Ne.symm hk)]
        · rw [if_neg h, if_neg h]

theorem mem_keys_putEntry :
    k ∈ (putEntry key v es).map Prod.fst ↔ k = key ∨ k ∈ es.map Prod.fst := by
  induction es with
  | nil => simp [putEntry]
  | cons e es ih =>
      obtain ⟨k', w⟩ := e
      simp only [putEntry]
      split
      · next hk => simp [hk]
      · simp only [List.map_cons, List.mem_cons, ih]
        exact or_left_comm

theorem nodup_putEntry (h : (es.map Prod.fst).Nodup) :
    ((putEntry key v es).map Prod.fst).Nodup := by
  induction es with
  | nil => simp [putEntry]
  | cons e es ih =>
      obtain ⟨k', w⟩ := e
      simp only [putEntry]
      split
      · exact h
      · next hk =>
        obtain ⟨hnew, hes⟩ := List.nodup_cons.mp h
        refine List.nodup_cons.mpr ⟨?_, ih hes⟩
        rw [mem_keys_putEntry]
        exact not_or.mpr ⟨hk, hnew⟩

/-- Where no key comes twice, an entry is what is found under its key. -/
theorem mem_iff_lookup (h : (es.map Prod.fst).Nodup) :
    (key, v) ∈ es ↔ es.lookup key = some v := by
  induction es with
  | nil => simp
  | cons e es ih =>
      obtain ⟨k', w⟩ := e
      obtain ⟨hnew, hes⟩ := List.nodup_cons.mp h
      rw [List.mem_cons, lookup_cons_ite, Prod.mk.injEq]
      by_cases hk : key = k'
      · subst hk
        have habsent : (key, v) ∉ es := fun hv => hnew (List.mem_map.mpr ⟨_, hv, rfl⟩)
        simp [habsent, eq_comm]
      · simp [hk, ih hes]

end Entries

variable {s : Settings} {e x i : Nat} {key k : String} {v : Value}

/-- The entry of the layer itself. -/
def entryAt (s : Settings) (i : Nat) (key : String) : Option Value := (s.own i).lookup key

theorem owns_eq_false_iff : s.owns i key = false ↔ s.entryAt i key = none := by
  simp [owns, entryAt]

theorem lt_next_of_owns (h : s.owns i key = true) : i < s.next := by
  refine Nat.lt_of_not_le fun hi => ?_
  rw [owns, own, List.getElem?_eq_none hi] at h
  cases h

theorem own_update (f : List (String × Value) → List (String × Value)) (hx : x < s.next) :
    (s.update x f).own i = if i = x then f (s.own i) else s.own i := by
  simp only [own, update, List.getElem?_modify]
  by_cases h : i = x
  · subst h
    simp [List.getElem?_eq_getElem hx]
  · simp [h, Ne.symm h]

theorem update_eq_self (f : List (String × Value) → List (String × Value)) (hx : ¬ x < s.next) :
    s.update x f = s := by
  have h : s.layers.modify x (fun layer => { layer with own := f layer.own }) = s.layers :=
    List.modify_eq_self (Nat.le_of_not_lt hx)
  obtain ⟨layers, _⟩ := s
  simp only [update, mk.injEq]
  exact h

theorem own_create (parent : Option Nat) : (s.create parent).own i = s.own i := by
  simp only [own, create]
  rcases Nat.lt_trichotomy i s.layers.length with h | h | h
  · rw [List.getElem?_append_left h]
  · simp [h]
  · rw [List.getElem?_eq_none (by simp; omega), List.getElem?_eq_none (by omega)]

/-- The layer, its parent, the parent of that, and so on. -/
def chain (s : Settings) (i : Nat) : List Nat :=
  match _h : s.layers[i]? with
  | none => []
  | some layer =>
    match _hp : layer.parent with
    | some p => i :: s.chain p
    | none => [i]
termination_by i
decreasing_by exact s.parent_lt _h _hp

theorem chain_of_none (h : s.layers[i]? = none) : s.chain i = [] := by
  rw [chain]
  split
  · rfl
  · next hlayer =>
    rw [h] at hlayer
    cases hlayer

theorem chain_of_layer {layer : Layer} (h : s.layers[i]? = some layer) :
    s.chain i = i :: layer.parent.elim [] s.chain := by
  rw [chain]
  split
  · next hnone =>
    rw [h] at hnone
    cases hnone
  · next hlayer =>
    cases h.symm.trans hlayer
    split <;> next hp => rw [hp]; rfl

theorem mem_chain (h : x ∈ s.chain e) : x < s.next ∧ x ≤ e := by
  fun_induction chain s e with
  | case1 => cases h
  | case2 e layer hlayer p hp ih =>
      have he : e < s.next := (List.getElem?_eq_some_iff.mp hlayer).1
      rcases List.mem_cons.mp h with rfl | h
      · exact ⟨he, Nat.le_refl _⟩
      · exact ⟨(ih h).1, Nat.le_of_lt (Nat.lt_of_le_of_lt (ih h).2 (s.parent_lt hlayer hp))⟩
  | case3 e layer hlayer _ =>
      cases List.mem_singleton.mp h
      exact ⟨(List.getElem?_eq_some_iff.mp hlayer).1, Nat.le_refl _⟩

/-- Along a chain the layers get older; so none comes twice. -/
theorem pairwise_chain (s : Settings) (e : Nat) : (s.chain e).Pairwise (· > ·) := by
  fun_induction chain s e with
  | case1 => exact .nil
  | case2 e layer hlayer p hp ih =>
      refine .cons (fun x hx => ?_) ih
      exact Nat.lt_of_le_of_lt (mem_chain hx).2 (s.parent_lt hlayer hp)
  | case3 => exact List.pairwise_singleton _ _

/-- The entries of a layer have no influence on the chains. -/
theorem chain_update (f : List (String × Value) → List (String × Value)) :
    (s.update x f).chain e = s.chain e := by
  have hlayers (i : Nat) : (s.update x f).layers[i]? =
      s.layers[i]?.map fun layer => if x = i then { layer with own := f layer.own } else layer := by
    rw [update, List.getElem?_modify]
    rfl
  fun_induction chain s e with
  | case1 e h => exact chain_of_none (by rw [hlayers, h]; rfl)
  | case2 e layer hlayer p hp ih =>
      rw [chain_of_layer (by rw [hlayers, hlayer]; rfl), apply_ite Layer.parent, ite_self, hp]
      exact congrArg (e :: ·) ih
  | case3 e layer hlayer hp =>
      rw [chain_of_layer (by rw [hlayers, hlayer]; rfl), apply_ite Layer.parent, ite_self, hp]
      rfl

end ShellGrammar.Settings
