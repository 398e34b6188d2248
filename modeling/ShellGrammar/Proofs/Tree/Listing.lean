import ShellGrammar.Proofs.Tree.Export

/-!
The listing of a tree. It has a line for each node that a walk through the tree meets, indented by
the depth of the node, with its kind and its label. No line holds a line feed, so the lines are read
off the listing. A line that is not cut off on the left tells depth, kind and label of its node, and
the depths in the order of the walk tell which nodes are children of which.
-/
namespace ShellGrammar

namespace Outline

/-- What a line shows: depth, kind and label. -/
abbrev Entry := Nat × Node.Kind × Option String

mutual

def entries (depth : Nat) : Outline → List Entry
  | node kind label children => (depth, kind, label) :: entriesList (depth + 1) children

def entriesList (depth : Nat) : List Outline → List Entry
  | [] => []
  | o :: os => o.entries depth ++ entriesList depth os

end

theorem entriesList_eq (depth : Nat) (os : List Outline) :
    entriesList depth os = os.flatMap (entries depth) := by
  induction os with
  | nil => rfl
  | cons o os ih => rw [entriesList, ih, List.flatMap_cons]

/-- No entry comes next, or one that is above the given depth. -/
def Above (depth : Nat) (es : List Entry) : Prop := ∀ e ∈ es.head?, e.1 < depth

theorem Above.entriesList_append {depth : Nat} {es : List Entry} (h : Above depth es)
    (os : List Outline) : Above (depth + 1) (entriesList depth os ++ es) := by
  intro e he
  cases os with
  | nil => exact Nat.lt_succ_of_lt (h e he)
  | cons o os =>
      cases o
      cases he
      exact Nat.lt_succ_self _

theorem not_above_entriesList (depth : Nat) (o : Outline) (os : List Outline) (es : List Entry) :
    ¬ Above depth (entriesList depth (o :: os) ++ es) := by
  intro h
  cases o
  exact Nat.lt_irrefl _ (h _ rfl)

mutual

/-- The entries of an outline end where the next entry is not below it. -/
theorem entries_inj : ∀ {o p : Outline} {depth : Nat} {es fs : List Entry},
    Above (depth + 1) es → Above (depth + 1) fs → o.entries depth ++ es = p.entries depth ++ fs →
      o = p ∧ es = fs
  | .node kind label children, .node kind' label' children', depth, es, fs, hes, hfs, h => by
      simp only [entries, List.cons_append, List.cons.injEq, Prod.mk.injEq, true_and] at h
      obtain ⟨⟨rfl, rfl⟩, hchildren⟩ := h
      obtain ⟨rfl, hrest⟩ := entriesList_inj hes hfs hchildren
      exact ⟨rfl, hrest⟩

theorem entriesList_inj : ∀ {os ps : List Outline} {depth : Nat} {es fs : List Entry},
    Above depth es → Above depth fs →
      entriesList depth os ++ es = entriesList depth ps ++ fs → os = ps ∧ es = fs
  | [], [], depth, es, fs, _, _, h => ⟨rfl, h⟩
  | [], p :: ps, depth, es, fs, hes, _, h => by
      rw [entriesList, List.nil_append] at h
      exact absurd (h ▸ hes) (not_above_entriesList depth p ps fs)
  | o :: os, [], depth, es, fs, _, hfs, h => by
      rw [entriesList.eq_1, List.nil_append] at h
      exact absurd (h ▸ hfs) (not_above_entriesList depth o os es)
  | o :: os, p :: ps, depth, es, fs, hes, hfs, h => by
      rw [entriesList, entriesList, List.append_assoc, List.append_assoc] at h
      obtain ⟨rfl, hrest⟩ := entries_inj (hes.entriesList_append os) (hfs.entriesList_append ps) h
      obtain ⟨rfl, hlast⟩ := entriesList_inj hes hfs hrest
      exact ⟨rfl, hlast⟩

end

end Outline

namespace Node

theorem entries_outline (n : Node) (depth : Nat) :
    n.outline.entries depth = (n.levels depth).map fun m => (m.1, m.2.kind, m.2.label) := by
  refine eq_map_levels (f := fun n depth => n.outline.entries depth) (fun n depth => ?_) n depth
  rw [outline_eq, Outline.entries, Outline.entriesList_eq, List.flatMap_map]

theorem listingLines_eq_map (n : Node) (column : Int) :
    n.listingLines column = (n.levels 0).map fun m => m.2.listingLine (column + 2 * m.1) := by
  have h := eq_map_levels (f := fun n depth => n.listingLines (column + 2 * depth))
    (g := fun m => m.2.listingLine (column + 2 * m.1)) (fun n depth => ?_) n 0
  · simpa using h
  · rw [listingLines_eq]
    have hcolumn : column + 2 * (depth : Int) + 2 = column + 2 * ((depth + 1 : Nat) : Int) := by
      omega
    rw [hcolumn]

theorem Kind.chars_name (k : Kind) :
    k.name.toList ≠ [] ∧ ∀ c ∈ k.name.toList, c ≠ ' ' ∧ c ≠ '\n' := by
  have hne : k.name.toList ≠ [] := by cases k <;> decide +kernel
  have hall : k.name.toList.all (fun c => c ≠ ' ' ∧ c ≠ '\n') = true := by
    cases k <;> decide +kernel
  exact ⟨hne, fun c hc => of_decide_eq_true (List.all_eq_true.mp hall c hc)⟩

/-- What stands behind the kind in a line. -/
def labelPart (label : Option String) : List Char :=
  label.elim [] fun text => ' ' :: (Text.quoted text).toList

theorem toList_listingLine (n : Node) (column : Int) :
    (n.listingLine column).toList =
      List.replicate column.toNat ' ' ++ (n.kind.name.toList ++ labelPart n.label) := by
  rw [listingLine, labelPart]
  cases n.label <;> simp

theorem newline_not_mem_listingLine (n : Node) (column : Int) :
    '\n' ∉ (n.listingLine column).toList := by
  have hlabel : '\n' ∉ labelPart n.label := by
    cases n.label with
    | none => exact List.not_mem_nil
    | some text =>
        rw [labelPart, Option.elim_some, List.mem_cons, not_or]
        exact ⟨by decide, Text.newline_not_mem_quoted text⟩
  have hname : '\n' ∉ n.kind.name.toList := fun h => (n.kind.chars_name.2 _ h).2 rfl
  rw [toList_listingLine, List.mem_append, List.mem_append, not_or, not_or]
  exact ⟨fun h => absurd (List.eq_of_mem_replicate h) (by decide), hname, hlabel⟩

theorem replicate_append_inj {α : Type} {a : α} {m n : Nat} {as bs : List α}
    (has : as.head? ≠ some a) (hbs : bs.head? ≠ some a)
    (h : List.replicate m a ++ as = List.replicate n a ++ bs) : m = n ∧ as = bs := by
  induction m generalizing n with
  | zero =>
      cases n with
      | zero => exact ⟨rfl, h⟩
      | succ n => exact absurd (congrArg List.head? h) has
  | succ m ih =>
      cases n with
      | zero => exact absurd (congrArg List.head? h).symm hbs
      | succ n =>
          obtain ⟨hm, hrest⟩ := ih (List.cons.inj h).2
          exact ⟨congrArg Nat.succ hm, hrest⟩

theorem labelPart_inj {label label' : Option String} (h : labelPart label = labelPart label') :
    label = label' := by
  cases label with
  | none =>
      cases label' with
      | none => rfl
      | some text' => cases h
  | some text =>
      cases label' with
      | none => cases h
      | some text' =>
          have hquoted := String.toList_inj.mp (List.cons.inj h).2
          rw [Text.quoted_inj hquoted]

/-- The kind ends where the first blank is. -/
theorem name_labelPart_inj {k k' : Kind} {label label' : Option String}
    (h : k.name.toList ++ labelPart label = k'.name.toList ++ labelPart label') :
    k = k' ∧ label = label' := by
  have hread (k : Kind) (label : Option String) :
      (k.name.toList ++ labelPart label).takeWhile (· != ' ') = k.name.toList := by
    rw [List.takeWhile_append_of_pos fun c hc => bne_iff_ne.mpr (k.chars_name.2 c hc).1]
    cases label <;> simp [labelPart]
  have hname : k.name.toList = k'.name.toList := by rw [← hread k label, h, hread k' label']
  have hk : k = k' := Kind.name_inj (String.toList_inj.mp hname)
  subst hk
  exact ⟨rfl, labelPart_inj (List.append_cancel_left h)⟩

/-- A line tells how far it is indented, and the kind and the label of its node. -/
theorem listingLine_inj {a b : Node} {column column' : Int}
    (h : a.listingLine column = b.listingLine column') :
    column.toNat = column'.toNat ∧ a.kind = b.kind ∧ a.label = b.label := by
  have hhead (n : Node) : (n.kind.name.toList ++ labelPart n.label).head? ≠ some ' ' := by
    obtain ⟨hne, hchars⟩ := n.kind.chars_name
    obtain ⟨c, cs, hname⟩ := List.exists_cons_of_ne_nil hne
    rw [hname] at hchars ⊢
    exact fun h => (hchars c List.mem_cons_self).1 (Option.some.inj h)
  have hlines := congrArg String.toList h
  rw [toList_listingLine, toList_listingLine] at hlines
  obtain ⟨hcolumn, hrest⟩ := replicate_append_inj (hhead a) (hhead b) hlines
  exact ⟨hcolumn, name_labelPart_inj hrest⟩

theorem splitOn_listing (n : Node) (column : Int) :
    (n.listing column).toList.splitOn '\n' = (n.listingLines column).map String.toList := by
  refine Text.splitOn_join '\n' (fun line hline => ?_) (by rw [listingLines_eq]; simp)
  rw [listingLines_eq_map] at hline
  obtain ⟨m, _, rfl⟩ := List.mem_map.mp hline
  exact newline_not_mem_listingLine _ _

/-- The indentation of a line is lost only if it begins left of the first column. -/
theorem listing_inj {a b : Node} {column : Int} (hcolumn : 0 ≤ column)
    (h : a.listing column = b.listing column) : a = b := by
  have hlines := splitOn_listing a column
  rw [h, splitOn_listing b column, List.map_inj_right fun _ _ => String.toList_inj.mp,
    listingLines_eq_map, listingLines_eq_map] at hlines
  have hentries : (a.levels 0).map (fun m => (m.1, m.2.kind, m.2.label)) =
      (b.levels 0).map fun m => (m.1, m.2.kind, m.2.label) := by
    refine map_eq_of_map_eq (fun m _ m' hline => ?_) hlines.symm
    obtain ⟨hdepth, hkind, hlabel⟩ := listingLine_inj hline
    have hdepth : m.1 = m'.1 := by omega
    rw [hdepth, hkind, hlabel]
  have houtlines : a.outline.entries 0 ++ [] = b.outline.entries 0 ++ [] := by
    rw [entries_outline, entries_outline, hentries]
  have hend : Outline.Above 1 [] := fun e he => by cases he
  exact outline_inj (Outline.entries_inj hend hend houtlines).1

/-- Split at its line feeds, a listing has one line for each node that is met on the walk through
the tree: spaces according to the depth of the node, none if they would begin left of the first
column, its kind, and its label, if it has one, in quotes. From the first column onwards, listings
of different trees are different. -/
theorem listing_faithful (n : Node) (column : Int) :
    ((n.listing column).toList.splitOn '\n').map String.ofList =
        (n.levels 0).map (fun (depth, m) =>
          String.ofList (List.replicate (max 0 (column + 2 * depth)).toNat ' ') ++ m.kind.name ++
            match m.label with
            | none => ""
            | some label => " " ++ Text.quoted label) ∧
      (n.levels 0).map Prod.snd = n.walk ∧
      (0 ≤ column → ∀ a b : Node, a.listing column = b.listing column ↔ a = b) := by
  refine ⟨?_, map_levels_snd n 0, fun hcolumn a b => ⟨listing_inj hcolumn, fun h => h ▸ rfl⟩⟩
  rw [splitOn_listing, listingLines_eq_map, List.map_map, List.map_map]
  refine List.map_congr_left fun m _ => ?_
  have hpad : (max 0 (column + 2 * m.1)).toNat = (column + 2 * m.1).toNat := by omega
  simp only [Function.comp_apply, String.ofList_toList, listingLine, hpad]
  cases m.2.label <;> rfl

/-- One word or two with the same label: the lines below tell them apart. -/
theorem listing_faithful_same_label :
    let one : Node := .simpleCommand ⟨⟨"a 'b"⟩, []⟩
    let two : Node := .simpleCommand ⟨⟨"a"⟩, [⟨"'b"⟩]⟩
    (0 : Int) ≤ 0 ∧ one.label = two.label ∧ one.listing 0 ≠ two.listing 0 ∧
      ((two.listing 0).toList.splitOn '\n').map String.ofList =
        ["SIMPLE_COMMAND \"a 'b\"", "  WORD 'a'", "  WORD \"'b\""] := by
  intro one two
  obtain ⟨hlines, _, hinj⟩ := listing_faithful two 0
  have hlevels : two.levels 0 = [(0, two), (1, .word ⟨"a"⟩), (1, .word ⟨"'b"⟩)] := by
    simp [two, levels_eq (.simpleCommand _), levels_eq (.word _), children, SimpleCommand.words]
  refine ⟨by decide, rfl, fun h => absurd ((hinj (by decide) one two).mp h) (by decide), ?_⟩
  rw [hlines, hlevels]
  decide +kernel

end Node
end ShellGrammar
