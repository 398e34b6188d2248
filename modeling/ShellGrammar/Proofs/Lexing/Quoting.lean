import ShellGrammar.Proofs.Lexing.Separation
import ShellGrammar.Tree.Writer

/-!
A quoted text is scanned as one word with that text. A bare text consists of bare characters, a
text in single quotes holds no quote that would end it, and in double quotes every quote and every
backslash has a backslash of its own; so each form is given back as a whole.
-/
namespace ShellGrammar.Lexing
open Text Quoting
variable {cs rest : List Char}

theorem isBlank_isSymbol_of_not_isSpecial {c : Char} (h : isSpecial c = false) :
    isBlank c = false ∧ isSymbol c = false ∧ c ≠ '\'' ∧ c ≠ '"' ∧ c ≠ '\\' := by
  simp only [isSpecial, Bool.or_eq_false_iff, List.contains_eq_mem, decide_eq_false_iff_not,
    List.mem_cons, not_or] at h
  obtain ⟨hb, hl, hr, ha, hp, hi, ho, hs, hd, he, _⟩ := h
  exact ⟨hb, by simp [isSymbol, hl, hr, ha, hp, hi, ho], hs, hd, he⟩

theorem part?_bare {c : Char} (h : isSpecial c = false) :
    part? (c :: rest) = some (some [c], rest) := by
  obtain ⟨hb, hs, hq, hd, he⟩ := isBlank_isSymbol_of_not_isSpecial h
  simp [part?, hb, hs, hq, hd, he]

theorem word_bare {c : Char} (h : ∀ d ∈ c :: cs, isSpecial d = false) (hr : part? rest = none) :
    word (c :: cs ++ rest) = (some (c :: cs), rest) := by
  have hc : part? (c :: (cs ++ rest)) = some (some [c], cs ++ rest) :=
    part?_bare (h c List.mem_cons_self)
  rw [List.cons_append, word_of_some hc]
  induction cs generalizing c with
  | nil =>
      rw [List.nil_append, word_of_none hr]
      rfl
  | cons d cs ih =>
      have hd : ∀ e ∈ d :: cs, isSpecial e = false := fun e he => h e (List.mem_cons_of_mem _ he)
      have hp : part? (d :: (cs ++ rest)) = some (some [d], cs ++ rest) :=
        part?_bare (hd d List.mem_cons_self)
      rw [List.cons_append, word_of_some hp, ih hd hp]
      rfl

theorem singleQuoted_append (h : '\'' ∉ cs) : singleQuoted (cs ++ '\'' :: rest) = (cs, rest) := by
  induction cs with
  | nil => rfl
  | cons c cs ih =>
      obtain ⟨hc, hcs⟩ := not_or.mp (mt List.mem_cons.mpr h)
      rw [List.cons_append, singleQuoted, if_neg (Ne.symm hc), ih hcs]

theorem doubleQuoted_escaped :
    doubleQuoted (cs.flatMap escapeChar ++ '"' :: rest) = (cs, rest) := by
  induction cs with
  | nil =>
      rw [List.flatMap_nil, List.nil_append, doubleQuoted.eq_def]
      rfl
  | cons c cs ih =>
      rw [List.flatMap_cons, List.append_assoc, escapeChar]
      by_cases hc : c = '\\' ∨ c = '"'
      · have hc' : c = '"' ∨ c = '\\' := Or.comm.mp hc
        rw [if_pos hc]
        simp [doubleQuoted, ih, hc']
      · have ⟨he, hd⟩ := not_or.mp hc
        rw [if_neg hc, List.singleton_append, doubleQuoted.eq_def]
        simp only [if_neg hd, if_neg he, ih]

/-- One part is all of the word that it begins. -/
theorem word_of_part {text : List Char} (h : part? cs = some (some text, rest))
    (hr : part? rest = none) : word cs = (some text, rest) := by
  rw [word_of_some h, word_of_none hr]
  rfl

theorem word_quote (cs : List Char) (hr : part? rest = none) :
    word (quote cs ++ rest) = (some cs, rest) := by
  rw [quote]
  split
  · next h =>
    simp only [Bool.and_eq_true, Bool.not_eq_true', List.any_eq_false] at h
    cases cs with
    | nil => cases h.1
    | cons c cs => exact word_bare (fun d hd => by simpa using h.2 d hd) hr
  · split
    · refine word_of_part ?_ hr
      have hd : doubleQuoted (cs.flatMap escapeChar ++ '"' :: rest) = (cs, rest) :=
        doubleQuoted_escaped
      simp [part?, hd]
    · next h =>
      refine word_of_part ?_ hr
      simp [part?, singleQuoted_append h]

/-- A quoted text begins with a character of a word. -/
theorem exists_quote_cons (cs : List Char) :
    ∃ c tail, quote cs = c :: tail ∧ isBlank c = false ∧ isSymbol c = false := by
  rw [quote]
  split
  · next h =>
    simp only [Bool.and_eq_true, Bool.not_eq_true', List.any_eq_false] at h
    cases cs with
    | nil => cases h.1
    | cons c cs =>
        have hc := isBlank_isSymbol_of_not_isSpecial (by simpa using h.2 c List.mem_cons_self)
        exact ⟨c, cs, rfl, hc.1, hc.2.1⟩
  · split
    · exact ⟨'"', _, rfl, by decide, by decide⟩
    · exact ⟨'\'', _, rfl, by decide, by decide⟩

/-- A quoted text is one word, whatever characters it holds, where nothing prolongs it. -/
theorem tokens_quote (pos : Nat) (cs : List Char) (hr : part? rest = none) :
    tokens pos (quote cs ++ rest) =
      ⟨String.ofList cs, .word, pos⟩ :: tokens (pos + (quote cs).length) rest := by
  obtain ⟨c, tail, hq, hb, hs⟩ := exists_quote_cons cs
  have hword := word_quote cs hr
  rw [hq, List.cons_append] at hword
  have hnone : symbol? (c :: (tail ++ rest)) = none := by
    rw [← Option.not_isSome_iff_eq_none, isSome_symbol?, hs]
    exact Bool.false_ne_true
  have hlen : (c :: (tail ++ rest)).length - rest.length = (c :: tail).length := by
    simp only [List.length_cons, List.length_append]
    omega
  rw [hq, List.cons_append, tokens_word hb hnone, hword, hlen]
  rfl

theorem standsFor_quote (cs : List Char) : StandsFor (quote cs) [(.word, String.ofList cs)] :=
  fun pos _ hr => ⟨[⟨String.ofList cs, .word, pos⟩], tokens_quote pos cs hr, rfl⟩

end ShellGrammar.Lexing
