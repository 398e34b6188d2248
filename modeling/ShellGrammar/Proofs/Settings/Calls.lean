import ShellGrammar.Proofs.Settings.Lookup

/-!
Calls on settings: layers are created, entries put, erased and loaded, in any order. No call gives
a layer two entries for one key, which lets the entry of a layer be found by its key; a call that
fails leaves the settings as they are. What a call changes in the lookups stands in the theorem
about all calls.
-/
namespace ShellGrammar.Settings

variable {s t : Settings} {e x i : Nat} {key k : String} {v : Value}

section Load
variable {given fallback : Value} {envVar : String} {envVars : String → Option String}
  {convert : String → Except String Value}

theorem loadWith_of_ok (h : (s.loadWith x key given envVar envVars fallback convert).1 = .ok v) :
    (s.loadWith x key given envVar envVars fallback convert).2 = s.put x key v := by
  rw [loadWith] at h ⊢
  split at h <;> cases h
  rfl

theorem loadWith_of_error {err : LoadError}
    (h : (s.loadWith x key given envVar envVars fallback convert).1 = .error err) :
    (s.loadWith x key given envVar envVars fallback convert).2 = s := by
  rw [loadWith] at h ⊢
  split at h <;> cases h
  rfl

end Load

/-- What can be asked of settings. -/
inductive Call
  | create (parent : Option Nat)
  | put (i : Nat) (key : String) (v : Value)
  | erase (i : Nat) (key : String)
  | load (i : Nat) (key : String) (given : Value) (envVar : String)
      (envVars : String → Option String) (fallback : Value)
      (convert : String → Except String Value)

/-- The settings after a call; where there is an error they are as before. -/
def act (s : Settings) : Call → Settings
  | .create parent => s.create parent
  | .put i key v => s.put i key v
  | .erase i key =>
    match s.erase i key with
    | .ok t => t
    | .error _ => s
  | .load i key given envVar envVars fallback convert =>
    (s.loadWith i key given envVar envVars fallback convert).2

def after (s : Settings) (calls : List Call) : Settings := calls.foldl act s

/-- No layer has two entries for one key. -/
def Distinct (s : Settings) : Prop := ∀ i, ((s.own i).map Prod.fst).Nodup

theorem distinct_empty : empty.Distinct := fun _ => List.nodup_nil

theorem Distinct.update {f : List (String × Value) → List (String × Value)} (h : s.Distinct)
    (hf : ∀ es : List (String × Value), (es.map Prod.fst).Nodup → ((f es).map Prod.fst).Nodup) :
    (s.update x f).Distinct := by
  intro i
  by_cases hx : x < s.next
  · rw [own_update f hx]
    split
    · exact hf _ (h i)
    · exact h i
  · rw [update_eq_self f hx]
    exact h i

theorem Distinct.act (h : s.Distinct) (call : Call) : (s.act call).Distinct := by
  cases call with
  | create parent =>
      intro i
      rw [Settings.act, own_create]
      exact h i
  | put x key v => exact h.update fun es => nodup_putEntry
  | erase x key =>
      simp only [Settings.act, Settings.erase]
      split
      · next t ht =>
        split at ht <;> cases ht
        exact h.update fun es hes => hes.sublist (List.filter_sublist.map _)
      · exact h
  | load x key given envVar envVars fallback convert =>
      rw [Settings.act]
      cases hload : (s.loadWith x key given envVar envVars fallback convert).1 with
      | ok v =>
          rw [loadWith_of_ok hload]
          exact h.update fun es => nodup_putEntry
      | error err =>
          rw [loadWith_of_error hload]
          exact h

theorem distinct_after (h : s.Distinct) (calls : List Call) : (s.after calls).Distinct := by
  induction calls generalizing s with
  | nil => exact h
  | cons call calls ih => exact ih (h.act call)

/-- Lookups differ at most for the key, and there only where the chain comes to `x` before any other
layer with the key. -/
def AltersOnly (s t : Settings) (x : Nat) (key : String) : Prop :=
  ∀ e k, t.item e k ≠ s.item e k → k = key ∧ s.Reaches e x key

theorem ChangedAt.altersOnly (h : s.ChangedAt t x key) : s.AltersOnly t x key := by
  intro e k hne
  refine Classical.byContradiction fun hn => hne ?_
  rw [item, item, h.find?_eq hn]

theorem item_put (hr : s.Reaches e x key) : (s.put x key v).item e key = .ok v := by
  have hx : x < s.next := (mem_chain hr.mem_chain).1
  rw [item_eq_ok_iff, find?_eq_some_iff]
  exact ⟨x, changedAt_put.reaches hr, entryAt_put hx⟩

/-- After any calls a lookup gives the entry of the nearest layer on the chain that has the key, and
names the key if none has it. A change of one entry is seen only from where the chain comes to its
layer before any other with the key, and is seen there; a failed load leaves every entry. -/
theorem item_after_calls (calls : List Call) :
    let s := empty.after calls
    (∀ e key, (∀ v, s.item e key = .ok v ↔ ∃ a, s.Reaches e a key ∧ (key, v) ∈ s.own a) ∧
        (∀ err, s.item e key = .error err ↔
          err = ⟨key⟩ ∧ ∀ a ∈ s.chain e, s.owns a key = false) ∧
        ∀ fallback, s.get e key fallback = (s.item e key).toOption.getD fallback) ∧
      (∀ x key v, s.AltersOnly (s.put x key v) x key ∧
        ∀ e, s.Reaches e x key → (s.put x key v).item e key = .ok v) ∧
      (∀ x key t, s.erase x key = .ok t → s.AltersOnly t x key ∧ t.owns x key = false) ∧
      ∀ x key given envVar envVars fallback convert,
        let loaded := s.loadWith x key given envVar envVars fallback convert
        (∀ v, loaded.1 = .ok v →
          s.AltersOnly loaded.2 x key ∧ ∀ e, s.Reaches e x key → loaded.2.item e key = .ok v) ∧
        ∀ err, loaded.1 = .error err → ∀ i, loaded.2.own i = s.own i := by
  intro s
  have hs : s.Distinct := distinct_after distinct_empty calls
  refine ⟨fun e key => ⟨fun v => ?_, fun err => ?_, get_eq_item⟩, fun x key v => ?_,
    fun x key t h => ?_, ?_⟩
  · simp only [item_eq_ok_iff, find?_eq_some_iff, mem_iff_lookup (hs _), entryAt]
  · rw [item_eq_error_iff, find?_eq_none_iff]
  · exact ⟨changedAt_put.altersOnly, fun e => item_put⟩
  · exact ⟨(changedAt_of_erase h).altersOnly, owns_of_erase h⟩
  · intro x key given envVar envVars fallback convert loaded
    refine ⟨fun v h => ?_, fun err h i => ?_⟩
    · have hput : loaded.2 = s.put x key v := loadWith_of_ok h
      rw [hput]
      exact ⟨changedAt_put.altersOnly, fun e => item_put⟩
    · have hsame : loaded.2 = s := loadWith_of_error h
      rw [hsame]

/-- Three layers in a row, the first two with an entry for one key: the newest one sees the second
layer, whose entry can be changed, loaded and removed, and not the first. -/
theorem item_after_calls_shadowed :
    let s := empty.after [.create none, .create (some 0), .create (some 1),
      .put 0 "depth" (.number 1), .put 1 "depth" (.number 2)]
    let load (text : String) := s.loadWith 1 "depth" .absent "DEPTH" (fun _ => some text) .absent
      Conversion.positive.convert
    s.Reaches 2 1 "depth" ∧ ¬ s.Reaches 2 0 "depth" ∧ s.item 2 "depth" = .ok (.number 2) ∧
      (s.put 0 "depth" .absent).item 2 "depth" = s.item 2 "depth" ∧
      (load "3").2.item 2 "depth" = .ok (.number 3) ∧
      (∀ i, (load "x").2.own i = s.own i) ∧
      ∃ t, s.erase 1 "depth" = .ok t ∧ t.owns 1 "depth" = false := by
  intro s load
  obtain ⟨hitem, hput, herase, hload⟩ := item_after_calls [.create none, .create (some 0),
    .create (some 1), .put 0 "depth" (.number 1), .put 1 "depth" (.number 2)]
  have hchain : s.chain 2 = [2, 1, 0] := by with_unfolding_all rfl
  have hreaches : s.Reaches 2 1 "depth" := ⟨[2], [0], hchain, by decide⟩
  have hshadowed : ¬ s.Reaches 2 0 "depth" := by
    rintro ⟨before, after, h, hbefore⟩
    rw [hchain] at h
    have hmem : 1 ∈ before := by
      rcases before with _ | ⟨b, _ | ⟨c, before⟩⟩ <;> simp_all
    exact absurd (hbefore 1 hmem) (by decide)
  have hfar : (s.put 0 "depth" .absent).item 2 "depth" = s.item 2 "depth" :=
    Classical.byContradiction fun h => hshadowed ((hput 0 "depth" .absent).1 2 "depth" h).2
  have hread : (load "3").1 = .ok (.number 3) := by with_unfolding_all rfl
  have hrefused : (load "x").1 = .error ⟨"DEPTH", Text.NotPositive.message ⟨"x"⟩⟩ := by
    with_unfolding_all rfl
  have herased : s.erase 1 "depth" = .ok (s.update 1 (·.filter (·.1 ≠ "depth"))) := rfl
  exact ⟨hreaches, hshadowed, ((hitem 2 "depth").1 _).mpr ⟨1, hreaches, by decide⟩, hfar,
    ((hload _ _ _ _ _ _ _).1 _ hread).2 2 hreaches, (hload _ _ _ _ _ _ _).2 _ hrefused,
    _, herased, (herase _ _ _ herased).2⟩

end ShellGrammar.Settings
