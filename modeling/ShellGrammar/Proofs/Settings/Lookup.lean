import ShellGrammar.Proofs.Settings.Layers

/-!
Lookups in layers of settings. A lookup gives the entry of the first layer on the chain that has
the key. What a change of one entry does to the lookups is read off from the chains, which no
change touches: it is seen from where the chain comes to the changed layer before any other with
the key, and nowhere else.
-/
namespace ShellGrammar.Settings

variable {s t : Settings} {e x i : Nat} {key k : String} {v : Value}

theorem entryAt_of_layer {layer : Layer} (h : s.layers[i]? = some layer) :
    s.entryAt i key = layer.own.lookup key := by
  rw [entryAt, own, h]
  rfl

/-- A lookup goes along the chain and takes the first entry. -/
theorem find?_eq_findSome? (s : Settings) (e : Nat) (key : String) :
    s.find? e key = (s.chain e).findSome? (s.entryAt · key) := by
  fun_induction find? s e key with
  | case1 e h => rw [chain_of_none h, List.findSome?_nil]
  | case2 e layer hlayer v hv =>
      rw [chain_of_layer hlayer, List.findSome?_cons, entryAt_of_layer hlayer, hv]
  | case3 e layer hlayer hv p hp ih =>
      rw [chain_of_layer hlayer, List.findSome?_cons, entryAt_of_layer hlayer, hv, hp]
      exact ih
  | case4 e layer hlayer hv hp =>
      rw [chain_of_layer hlayer, List.findSome?_cons, entryAt_of_layer hlayer, hv, hp]
      rfl

/-- The chain of `e` comes to the layer `x`, and no layer before it has the key. -/
def Reaches (s : Settings) (e x : Nat) (key : String) : Prop :=
  ∃ before after, s.chain e = before ++ x :: after ∧ ∀ b ∈ before, s.owns b key = false

theorem Reaches.mem_chain (h : s.Reaches e x key) : x ∈ s.chain e := by
  obtain ⟨before, after, hchain, _⟩ := h
  rw [hchain]
  exact List.mem_append_right _ List.mem_cons_self

theorem find?_eq_some_iff :
    s.find? e key = some v ↔ ∃ a, s.Reaches e a key ∧ s.entryAt a key = some v := by
  simp only [find?_eq_findSome?, List.findSome?_eq_some_iff, Reaches, owns_eq_false_iff]
  constructor
  · rintro ⟨before, a, after, hchain, ha, hbefore⟩
    exact ⟨a, ⟨before, after, hchain, hbefore⟩, ha⟩
  · rintro ⟨a, ⟨before, after, hchain, hbefore⟩, ha⟩
    exact ⟨before, a, after, hchain, ha, hbefore⟩

theorem find?_eq_none_iff : s.find? e key = none ↔ ∀ a ∈ s.chain e, s.owns a key = false := by
  simp only [find?_eq_findSome?, List.findSome?_eq_none_iff, owns_eq_false_iff]

theorem item_eq_ok_iff : s.item e key = .ok v ↔ s.find? e key = some v := by
  rw [item]
  cases s.find? e key <;> simp

theorem item_eq_error_iff {err : MissingKey} :
    s.item e key = .error err ↔ err = ⟨key⟩ ∧ s.find? e key = none := by
  rw [item]
  cases s.find? e key <;> simp [eq_comm]

theorem get_eq_item (fallback : Value) :
    s.get e key fallback = (s.item e key).toOption.getD fallback := by
  rw [get, item]
  cases s.find? e key <;> rfl

/-- The chains are the same, and so are all entries but that for `key` in the layer `x`. -/
structure ChangedAt (s t : Settings) (x : Nat) (key : String) : Prop where
  chain : ∀ e, t.chain e = s.chain e
  entry : ∀ i k, ¬ (i = x ∧ k = key) → t.entryAt i k = s.entryAt i k

namespace ChangedAt

theorem symm (h : s.ChangedAt t x key) : t.ChangedAt s x key where
  chain e := (h.chain e).symm
  entry i k hik := (h.entry i k hik).symm

/-- Which layers are before the changed one does not depend on its entry. -/
theorem reaches (h : s.ChangedAt t x key) (hr : s.Reaches e x key) : t.Reaches e x key := by
  obtain ⟨before, after, hchain, hbefore⟩ := hr
  refine ⟨before, after, (h.chain e).trans hchain, fun b hb => ?_⟩
  have hpairs := s.pairwise_chain e
  rw [hchain] at hpairs
  have hbx : b ≠ x := Nat.ne_of_gt
    ((List.pairwise_append.mp hpairs).2.2 b hb x List.mem_cons_self)
  rw [owns_eq_false_iff, h.entry b key fun hbk => hbx hbk.1, ← owns_eq_false_iff]
  exact hbefore b hb

/-- What is found in another layer than the changed one, or for another key, is still found. -/
theorem find?_eq_some (h : s.ChangedAt t x key) (hn : ¬ (k = key ∧ s.Reaches e x key))
    (hv : s.find? e k = some v) : t.find? e k = some v := by
  rw [find?_eq_some_iff] at hv ⊢
  obtain ⟨a, ⟨before, after, hchain, hbefore⟩, ha⟩ := hv
  have hsame : ∀ b ∈ before ++ [a], t.entryAt b k = s.entryAt b k := by
    intro b hb
    refine h.entry b k ?_
    rintro ⟨rfl, rfl⟩
    refine hn ⟨rfl, ?_⟩
    rcases List.mem_append.mp hb with hb | hb
    · obtain ⟨fore, aft, rfl⟩ := List.append_of_mem hb
      refine ⟨fore, aft ++ a :: after, by simp [hchain], fun c hc => hbefore c ?_⟩
      exact List.mem_append_left _ hc
    · cases List.mem_singleton.mp hb
      exact ⟨before, after, hchain, hbefore⟩
  refine ⟨a, ⟨before, after, (h.chain e).trans hchain, fun b hb => ?_⟩, ?_⟩
  · rw [owns_eq_false_iff, hsame b (List.mem_append_left _ hb), ← owns_eq_false_iff]
    exact hbefore b hb
  · rw [hsame a (List.mem_append_right _ List.mem_cons_self)]
    exact ha

/-- A changed entry does not count where the chain does not come to it, or only behind another one
for the key. -/
theorem find?_eq (h : s.ChangedAt t x key) (hn : ¬ (k = key ∧ s.Reaches e x key)) :
    t.find? e k = s.find? e k := by
  have hn' : ¬ (k = key ∧ t.Reaches e x key) := fun hr => hn ⟨hr.1, h.symm.reaches hr.2⟩
  exact Option.ext fun v => ⟨h.symm.find?_eq_some hn', h.find?_eq_some hn⟩

end ChangedAt

theorem changedAt_update {f : List (String × Value) → List (String × Value)}
    (hf : ∀ es k, k ≠ key → (f es).lookup k = es.lookup k) : s.ChangedAt (s.update x f) x key where
  chain _ := chain_update f
  entry i k hik := by
    by_cases hx : x < s.next
    · rw [entryAt, own_update f hx]
      split
      · next hi => exact hf _ _ fun hk => hik ⟨hi, hk⟩
      · rfl
    · rw [update_eq_self f hx]

theorem changedAt_put : s.ChangedAt (s.put x key v) x key :=
  changedAt_update fun _ _ hk => lookup_putEntry.trans (if_neg hk)

theorem entryAt_put (hx : x < s.next) : (s.put x key v).entryAt x key = some v := by
  rw [entryAt, put, own_update _ hx, if_pos rfl, lookup_putEntry, if_pos rfl]

theorem changedAt_of_erase (h : s.erase x key = .ok t) : s.ChangedAt t x key := by
  rw [erase] at h
  split at h <;> cases h
  exact changedAt_update fun _ _ hk => lookup_filter_ne.trans (if_neg hk)

theorem owns_of_erase (h : s.erase x key = .ok t) : t.owns x key = false := by
  rw [erase] at h
  split at h
  · next howns =>
    cases h
    rw [owns_eq_false_iff, entryAt, own_update _ (lt_next_of_owns howns), if_pos rfl,
      lookup_filter_ne, if_pos rfl]
  · cases h

end ShellGrammar.Settings
