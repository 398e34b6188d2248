import ShellGrammar.Token.Scanner

/-!
The scanning rules of command lines, by position. `tokens pos cs` looks at the text `cs` that lies
ahead of the position `pos` and needs no memory of what came before: blanks are skipped, symbols
are taken greedily, and everything else is a word made of the longest run of parts. This is the
account that the scanner, which sees one character at a time, is measured against.
-/
namespace ShellGrammar.Lexing
open Text

/-- The content of a part in single quotes and what follows it, the opening quote being read. -/
def singleQuoted : List Char → List Char × List Char
  | [] => ([], [])
  | c :: cs =>
    if c = '\'' then ([], cs)
    else
      let (text, rest) := singleQuoted cs
      (c :: text, rest)

/-- The same for double quotes: a backslash is removed only before a double quote or a backslash,
and one at the end of the text is kept. -/
def doubleQuoted : List Char → List Char × List Char
  | [] => ([], [])
  | c :: cs =>
    if c = '"' then ([], cs)
    else if c = '\\' then
      match cs with
      | [] => (['\\'], [])
      | d :: ds =>
        let (text, rest) := doubleQuoted ds
        (if d = '"' ∨ d = '\\' then d :: text else '\\' :: d :: text, rest)
    else
      let (text, rest) := doubleQuoted cs
      (c :: text, rest)

/-- Parentheses and the characters that operators are made of. -/
def isSymbol (c : Char) : Bool := ['(', ')', '&', '|', '<', '>'].contains c

/-- One part of a word: the text that it stands for and what follows it. A line continuation
stands for no text at all, unlike a pair of quotes with nothing between them. -/
def part? : List Char → Option (Option (List Char) × List Char)
  | [] => none
  | c :: cs =>
    if c = '\'' then
      let (text, rest) := singleQuoted cs
      some (some text, rest)
    else if c = '"' then
      let (text, rest) := doubleQuoted cs
      some (some text, rest)
    else if c = '\\' then
      match cs with
      | [] => some (some ['\\'], [])
      | d :: ds => some (if d = '\n' then none else some [d], ds)
    else if isBlank c || isSymbol c then none
    else some (some [c], cs)

/-- A symbol by its kind and its number of characters. -/
def symbol? : List Char → Option (Token.Kind × Nat)
  | '(' :: _ => some (.lparen, 1)
  | ')' :: _ => some (.rparen, 1)
  | '&' :: '&' :: _ => some (.andAnd, 2)
  | '|' :: '|' :: _ => some (.orOr, 2)
  | '>' :: '>' :: _ => some (.redirAppend, 2)
  | '<' :: '<' :: _ => some (.heredoc, 2)
  | '|' :: _ => some (.pipe, 1)
  | '>' :: _ => some (.redirOut, 1)
  | '<' :: _ => some (.redirIn, 1)
  | '&' :: _ => some (.word, 1)
  | _ => none

theorem singleQuoted_rest_le (cs : List Char) : (singleQuoted cs).2.length ≤ cs.length := by
  induction cs with
  | nil => exact Nat.le_refl _
  | cons c cs ih =>
      simp only [singleQuoted]
      split
      · exact Nat.le_succ _
      · exact Nat.le_succ_of_le ih

theorem doubleQuoted_rest_le (cs : List Char) : (doubleQuoted cs).2.length ≤ cs.length := by
  fun_induction doubleQuoted cs with
  | case1 => exact Nat.le_refl _
  | case2 cs => exact Nat.le_succ _
  | case3 => exact Nat.zero_le _
  | case4 d ds text rest hr _ ih =>
      simp only [hr, List.length_cons] at ih ⊢
      omega
  | case5 c cs _ _ text rest hr ih =>
      simp only [hr, List.length_cons] at ih ⊢
      omega

theorem part?_rest_lt {cs rest : List Char} {piece : Option (List Char)}
    (h : part? cs = some (piece, rest)) : rest.length < cs.length := by
  cases cs with
  | nil => cases h
  | cons c cs =>
      have hs := singleQuoted_rest_le cs
      have hd := doubleQuoted_rest_le cs
      simp only [part?] at h
      split at h
      · cases h
        exact Nat.lt_succ_of_le hs
      · split at h
        · cases h
          exact Nat.lt_succ_of_le hd
        · split at h
          · split at h <;> cases h <;> simp only [List.length_cons] <;> omega
          · split at h <;> cases h
            exact Nat.lt_succ_self _

/-- The longest run of parts; its text is none if there is no part but line continuations. -/
def word (cs : List Char) : Option (List Char) × List Char :=
  match _h : part? cs with
  | none => (none, cs)
  | some (piece, middle) =>
    let (text, rest) := word middle
    (piece.merge (· ++ ·) text, rest)
termination_by cs.length
decreasing_by exact part?_rest_lt _h

theorem word_of_none {cs : List Char} (h : part? cs = none) : word cs = (none, cs) := by
  rw [word]
  split
  · rfl
  · simp_all

theorem word_of_some {cs middle : List Char} {piece : Option (List Char)}
    (h : part? cs = some (piece, middle)) :
    word cs = (piece.merge (· ++ ·) (word middle).1, (word middle).2) := by
  rw [word]
  split <;> simp_all

theorem word_rest_le (cs : List Char) : (word cs).2.length ≤ cs.length := by
  fun_induction word cs with
  | case1 cs => exact Nat.le_refl _
  | case2 cs piece middle h text rest hr ih =>
      have hm := part?_rest_lt h
      rw [hr] at ih
      exact Nat.le_trans ih (Nat.le_of_lt hm)

theorem word_rest_lt {cs : List Char} (h : part? cs ≠ none) : (word cs).2.length < cs.length := by
  obtain ⟨⟨piece, middle⟩, hp⟩ := Option.ne_none_iff_exists'.mp h
  rw [word_of_some hp]
  exact Nat.lt_of_le_of_lt (word_rest_le middle) (part?_rest_lt hp)

theorem symbol?_size_pos {cs : List Char} {kind : Token.Kind} {size : Nat}
    (h : symbol? cs = some (kind, size)) : 0 < size ∧ size ≤ cs.length := by
  unfold symbol? at h
  split at h <;> cases h <;> simp

theorem isSome_symbol? (c : Char) (cs : List Char) :
    (symbol? (c :: cs)).isSome = isSymbol c := by
  unfold symbol?
  split <;> simp_all [isSymbol]

/-- No part begins with a blank or a symbol, and any other character begins one. -/
theorem part?_eq_none_iff {c : Char} {cs : List Char} :
    part? (c :: cs) = none ↔ isBlank c = true ∨ isSymbol c = true := by
  by_cases hq : c = '\''
  · exact iff_of_false (by simp [part?, hq]) (by rw [hq]; decide)
  by_cases hd : c = '"'
  · exact iff_of_false (by simp [part?, hd]) (by rw [hd]; decide)
  by_cases he : c = '\\'
  · exact iff_of_false (by cases cs <;> simp [part?, he]) (by rw [he]; decide)
  · simp only [part?, if_neg hq, if_neg hd, if_neg he]
    cases isBlank c <;> cases isSymbol c <;> simp

theorem part?_blank {c : Char} (h : isBlank c = true) (cs : List Char) :
    part? (c :: cs) = none :=
  part?_eq_none_iff.mpr (.inl h)

/-- What is neither blank nor a symbol begins a word. -/
theorem part?_ne_none {c : Char} {cs : List Char} (hb : isBlank c = false)
    (hs : symbol? (c :: cs) = none) : part? (c :: cs) ≠ none := by
  have hc : isSymbol c = false := by simp [← isSome_symbol? c cs, hs]
  simp [part?_eq_none_iff, hb, hc]

/-- The token of a word with this text, if it has any. -/
def wordToken (pos : Nat) (text : Option (List Char)) : List Token :=
  (text.map fun cs => ⟨String.ofList cs, .word, pos⟩).toList

/-- The tokens of the text `cs` ahead of the position `pos`. -/
def tokens (pos : Nat) (cs : List Char) : List Token :=
  match cs with
  | [] => []
  | c :: rest =>
    if _hb : isBlank c then tokens (pos + 1) rest
    else
      match _hs : symbol? (c :: rest) with
      | some (kind, size) =>
        ⟨String.ofList ((c :: rest).take size), kind, pos⟩ ::
          tokens (pos + size) ((c :: rest).drop size)
      | none =>
        wordToken pos (word (c :: rest)).1 ++
          tokens (pos + ((c :: rest).length - (word (c :: rest)).2.length)) (word (c :: rest)).2
termination_by cs.length
decreasing_by
  · exact Nat.lt_succ_self _
  · have := symbol?_size_pos _hs
    simp only [List.length_drop]
    omega
  · exact word_rest_lt (part?_ne_none (by simpa using _hb) _hs)

theorem tokens_nil (pos : Nat) : tokens pos [] = [] := by rw [tokens]

theorem tokens_blank {c : Char} (h : isBlank c = true) (pos : Nat) (cs : List Char) :
    tokens pos (c :: cs) = tokens (pos + 1) cs := by
  rw [tokens, dif_pos h]

theorem tokens_symbol {c : Char} {cs : List Char} {kind : Token.Kind} {size : Nat}
    (hb : isBlank c = false) (h : symbol? (c :: cs) = some (kind, size)) (pos : Nat) :
    tokens pos (c :: cs) =
      ⟨String.ofList ((c :: cs).take size), kind, pos⟩ ::
        tokens (pos + size) ((c :: cs).drop size) := by
  rw [tokens, dif_neg (by simp [hb])]
  split <;> simp_all

theorem tokens_word {c : Char} {cs : List Char} (hb : isBlank c = false)
    (h : symbol? (c :: cs) = none) (pos : Nat) :
    tokens pos (c :: cs) =
      wordToken pos (word (c :: cs)).1 ++
        tokens (pos + ((c :: cs).length - (word (c :: cs)).2.length)) (word (c :: cs)).2 := by
  rw [tokens, dif_neg (by simp [hb])]
  split <;> simp_all

theorem wellSpelled_symbol {cs : List Char} {kind : Token.Kind} {size : Nat} {pos : Int}
    (h : symbol? cs = some (kind, size)) :
    (Token.mk (String.ofList (cs.take size)) kind pos).WellSpelled := by
  unfold symbol? at h
  split at h <;> cases h <;> rintro s ⟨⟩ <;> rfl

/-- Whatever the text, its tokens are spelled as their kinds demand. -/
theorem tokens_wellSpelled (pos : Nat) (cs : List Char) : ∀ t ∈ tokens pos cs, t.WellSpelled := by
  fun_induction tokens pos cs with
  | case1 => exact fun t ht => absurd ht List.not_mem_nil
  | case2 pos c cs hb ih => exact ih
  | case3 pos c cs hb kind size hs ih =>
      intro t ht
      rcases List.mem_cons.mp ht with rfl | ht
      · exact wellSpelled_symbol hs
      · exact ih t ht
  | case4 pos c cs hb hs ih =>
      intro t ht
      rcases List.mem_append.mp ht with ht | ht
      · obtain ⟨text, _, rfl⟩ := Option.map_eq_some_iff.mp (Option.mem_toList.mp ht)
        intro s hs
        cases hs
      · exact ih t ht

example : tokens 0 "ab\\\nc||'d\n'e \\".toList =
    [⟨"abc", .word, 0⟩, ⟨"||", .orOr, 5⟩, ⟨"d\ne", .word, 7⟩, ⟨"\\", .word, 13⟩] := by cbv

end ShellGrammar.Lexing
