import ShellGrammar.Proofs.Lexing.Rules

/-!
How much of the text ahead is taken by a quotation, a part and a word. Each takes characters off the
front and leaves the others as they are; what it makes of the characters does not depend on those it
leaves, and it is no longer than what was taken.
-/
namespace ShellGrammar.Lexing
open Text
variable {cs rest : List Char}

/-- The parts of a word by what they begin with, one alternative for each rule. -/
inductive IsPart : List Char → Option (List Char) → List Char → Prop
  | single (cs : List Char) : IsPart ('\'' :: cs) (some (singleQuoted cs).1) (singleQuoted cs).2
  | double (cs : List Char) : IsPart ('"' :: cs) (some (doubleQuoted cs).1) (doubleQuoted cs).2
  | trailing : IsPart ['\\'] (some ['\\']) []
  | continuation (cs : List Char) : IsPart ('\\' :: '\n' :: cs) none cs
  | escaped {d : Char} (h : d ≠ '\n') (cs : List Char) : IsPart ('\\' :: d :: cs) (some [d]) cs
  | bare {c : Char} (hq : c ≠ '\'') (hd : c ≠ '"') (he : c ≠ '\\') (hb : isBlank c = false)
      (hs : isSymbol c = false) (cs : List Char) : IsPart (c :: cs) (some [c]) cs

theorem IsPart.part? {piece : Option (List Char)} (h : IsPart cs piece rest) :
    part? cs = some (piece, rest) := by
  cases h with
  | single | double | trailing | continuation => rfl
  | escaped hn => simp [Lexing.part?, hn]
  | bare hq hd he hb hs => simp [Lexing.part?, hq, hd, he, hb, hs]

theorem exists_isPart (h : part? cs ≠ none) : ∃ piece rest, IsPart cs piece rest := by
  cases cs with
  | nil => exact absurd rfl h
  | cons c cs =>
      by_cases hq : c = '\''
      · exact hq ▸ ⟨_, _, .single cs⟩
      by_cases hd : c = '"'
      · exact hd ▸ ⟨_, _, .double cs⟩
      by_cases he : c = '\\'
      · subst he
        cases cs with
        | nil => exact ⟨_, _, .trailing⟩
        | cons d ds =>
            by_cases hn : d = '\n'
            · exact hn ▸ ⟨_, _, .continuation ds⟩
            · exact ⟨_, _, .escaped hn ds⟩
      have hc : isBlank c = false ∧ isSymbol c = false := by
        simpa [part?, hq, hd, he] using h
      exact ⟨_, _, .bare hq hd he hc.1 hc.2 cs⟩

theorem isPart_of_part? {piece : Option (List Char)} (h : part? cs = some (piece, rest)) :
    IsPart cs piece rest := by
  obtain ⟨_, _, hpart⟩ := exists_isPart (h ▸ Option.some_ne_none _)
  cases hpart.part?.symm.trans h
  exact hpart

theorem singleQuoted_extent (cs : List Char) :
    ∃ taken, cs = taken ++ (singleQuoted cs).2 ∧ (singleQuoted cs).1.length ≤ taken.length ∧
      ∀ left, left <+: (singleQuoted cs).2 →
        singleQuoted (taken ++ left) = ((singleQuoted cs).1, left) := by
  induction cs with
  | nil =>
      refine ⟨[], rfl, Nat.le_refl _, fun left h => ?_⟩
      rw [List.prefix_nil.mp h]
      rfl
  | cons c cs ih =>
      by_cases hc : c = '\''
      · subst hc
        exact ⟨['\''], rfl, Nat.zero_le _, fun left _ => rfl⟩
      · obtain ⟨taken, hcs, hlen, hleft⟩ := ih
        simp only [singleQuoted, if_neg hc]
        refine ⟨c :: taken, congrArg (c :: ·) hcs, Nat.succ_le_succ hlen, fun left h => ?_⟩
        rw [List.cons_append, singleQuoted, if_neg hc, hleft left h]

theorem doubleQuoted_extent (cs : List Char) :
    ∃ taken, cs = taken ++ (doubleQuoted cs).2 ∧ (doubleQuoted cs).1.length ≤ taken.length ∧
      ∀ left, left <+: (doubleQuoted cs).2 →
        doubleQuoted (taken ++ left) = ((doubleQuoted cs).1, left) := by
  fun_induction doubleQuoted cs with
  | case1 =>
      refine ⟨[], rfl, Nat.le_refl _, fun left h => ?_⟩
      rw [List.prefix_nil.mp h, List.append_nil, doubleQuoted]
  | case2 cs =>
      refine ⟨['"'], rfl, Nat.zero_le _, fun left _ => ?_⟩
      rw [List.singleton_append, doubleQuoted.eq_def]
      rfl
  | case3 =>
      refine ⟨['\\'], rfl, Nat.le_refl _, fun left h => ?_⟩
      rw [List.prefix_nil.mp h, List.append_nil, doubleQuoted.eq_def]
      rfl
  | case4 d ds text rest hr hd ih =>
      obtain ⟨taken, hds, hlen, hleft⟩ := ih
      simp only [hr] at hds hlen hleft
      refine ⟨'\\' :: d :: taken, by rw [hds]; rfl, ?_, fun left h => ?_⟩
      · split <;> simp only [List.length_cons] <;> omega
      · simp only [List.cons_append, doubleQuoted, hleft left h, if_neg hd, ite_true]
  | case5 c cs hd he text rest hr ih =>
      obtain ⟨taken, hcs, hlen, hleft⟩ := ih
      simp only [hr] at hcs hlen hleft
      refine ⟨c :: taken, by rw [hcs]; rfl, Nat.succ_le_succ hlen, fun left h => ?_⟩
      rw [List.cons_append, doubleQuoted.eq_def]
      simp only [if_neg hd, if_neg he, hleft left h]

theorem IsPart.extent {piece : Option (List Char)} (h : IsPart cs piece rest) :
    ∃ taken, cs = taken ++ rest ∧ (piece.getD []).length ≤ taken.length ∧
      ∀ left, left <+: rest → IsPart (taken ++ left) piece left := by
  cases h with
  | single cs =>
      obtain ⟨taken, hcs, hlen, hleft⟩ := singleQuoted_extent cs
      refine ⟨'\'' :: taken, congrArg ('\'' :: ·) hcs, Nat.le_succ_of_le hlen, fun left h => ?_⟩
      have hpart := IsPart.single (taken ++ left)
      rwa [hleft left h] at hpart
  | double cs =>
      obtain ⟨taken, hcs, hlen, hleft⟩ := doubleQuoted_extent cs
      refine ⟨'"' :: taken, congrArg ('"' :: ·) hcs, Nat.le_succ_of_le hlen, fun left h => ?_⟩
      have hpart := IsPart.double (taken ++ left)
      rwa [hleft left h] at hpart
  | trailing =>
      refine ⟨['\\'], rfl, Nat.le_refl _, fun left h => ?_⟩
      rw [List.prefix_nil.mp h]
      exact .trailing
  | continuation cs => exact ⟨['\\', '\n'], rfl, Nat.zero_le _, fun left _ => .continuation left⟩
  | @escaped d hn cs =>
      exact ⟨['\\', d], rfl, Nat.le_succ _, fun left _ => .escaped hn left⟩
  | @bare c hq hd he hb hs cs =>
      exact ⟨[c], rfl, Nat.le_refl _, fun left _ => .bare hq hd he hb hs left⟩

theorem length_merge (text piece : Option (List Char)) :
    ((text.merge (· ++ ·) piece).getD []).length =
      (text.getD []).length + (piece.getD []).length := by
  cases text <;> cases piece <;> simp

/-- What a word takes is a word of its own, with the same text and nothing left. -/
theorem word_extent (cs : List Char) :
    ∃ taken, cs = taken ++ (word cs).2 ∧ ((word cs).1.getD []).length ≤ taken.length ∧
      word taken = ((word cs).1, []) := by
  fun_induction word cs with
  | case1 cs h => exact ⟨[], rfl, Nat.le_refl _, word_of_none rfl⟩
  | case2 cs piece middle h text rest hr ih =>
      obtain ⟨before, hcs, hbefore, hpart⟩ := (isPart_of_part? h).extent
      obtain ⟨after, hmiddle, hafter, hword⟩ := ih
      simp only [hr] at hmiddle hafter hword
      refine ⟨before ++ after, ?_, ?_, ?_⟩
      · rw [hcs, hmiddle, List.append_assoc]
      · rw [length_merge, List.length_append]
        exact Nat.add_le_add hbefore hafter
      · rw [word_of_some (hpart after ⟨rest, hmiddle.symm⟩).part?, hword]

/-- A word without quotes and backslashes stands for itself and holds no blank. -/
theorem word_unquoted (hq : '\'' ∉ cs) (hd : '"' ∉ cs) (he : '\\' ∉ cs) (hw : (word cs).2 = []) :
    (word cs).1.getD [] = cs ∧ ∀ c ∈ cs, isBlank c = false := by
  fun_induction word cs with
  | case1 cs h =>
      cases hw
      exact ⟨rfl, fun c hc => absurd hc List.not_mem_nil⟩
  | case2 cs piece middle h text rest hr ih =>
      simp only [hr] at ih
      cases isPart_of_part? h with
      | single | double | trailing | continuation | escaped => simp at hq hd he
      | @bare c _ _ _ hb _ =>
          simp only [List.mem_cons, not_or] at hq hd he
          obtain ⟨htext, hblank⟩ := ih hq.2 hd.2 he.2 hw
          refine ⟨?_, List.forall_mem_cons.mpr ⟨hb, hblank⟩⟩
          rw [← htext]
          cases text <;> rfl

end ShellGrammar.Lexing
