import ShellGrammar.Proofs.Lexing.Extent
import ShellGrammar.Proofs.Lexing.Steps

/-!
The scanner agrees with the scanning rules. Each part of a word, then a whole word, then each
symbol is followed through the states of the scanner; the number of characters read is carried
along by an equation between what is read and what is left. The tokens of a text are those of the
rules, and no fault is ever raised.
-/
namespace ShellGrammar
namespace Scanner
open Lexing Text
variable {p n m : Nat} {text : Option (List Char)} {cs : List Char}

theorem readAll_singleQuoted {content : List Char}
    (hm : n + cs.length = m + (singleQuoted cs).2.length) :
    (withinQuotes '\'' p content false n).readAll cs =
      (withinWord p (some (content ++ (singleQuoted cs).1)) false m).readAll
        (singleQuoted cs).2 := by
  induction cs generalizing content n with
  | nil =>
      simp only [singleQuoted, List.append_nil, readAll_withinQuotes_nil, readAll_withinWord_nil]
  | cons c cs ih =>
      by_cases hc : c = '\''
      · subst hc
        have hn : n + 1 = m := by
          simp only [singleQuoted, if_pos, List.length_cons] at hm
          omega
        rw [readAll_cons_silent (next_withinQuotes_close (.inl rfl)), hn]
        simp [singleQuoted]
      · simp only [singleQuoted, hc, if_false, List.length_cons] at hm ⊢
        rw [readAll_cons_silent (next_withinQuotes_single hc), ih (by omega)]
        simp

theorem readAll_doubleQuoted {content : List Char}
    (hm : n + cs.length = m + (doubleQuoted cs).2.length) :
    (withinQuotes '"' p content false n).readAll cs =
      (withinWord p (some (content ++ (doubleQuoted cs).1)) false m).readAll
        (doubleQuoted cs).2 := by
  fun_induction doubleQuoted cs generalizing content n with
  | case1 => simp only [List.append_nil, readAll_withinQuotes_nil, readAll_withinWord_nil]
  | case2 cs =>
      have hn : n + 1 = m := by
        simp only [List.length_cons] at hm
        omega
      rw [readAll_cons_silent (next_withinQuotes_close (.inr rfl)), hn]
      simp
  | case3 =>
      rw [readAll_cons_silent next_withinQuotes_backslash, readAll_withinQuotes_backslash,
        readAll_withinWord_nil]
  | case4 d ds inner rest hr _ ih =>
      simp only [hr, List.length_cons] at ih hm
      rw [readAll_cons_silent next_withinQuotes_backslash,
        readAll_cons_silent next_withinQuotes_escaped, ih (by omega)]
      split <;> simp
  | case5 c cs hd he inner rest hr ih =>
      simp only [hr, List.length_cons] at ih hm
      rw [readAll_cons_silent (next_withinQuotes_double hd he), ih (by omega)]
      simp

/-- The text of a word with one more part. -/
theorem getD_append (text : Option (List Char)) (piece : List Char) :
    some (text.getD [] ++ piece) = text.merge (· ++ ·) (some piece) := by
  cases text <;> rfl

theorem readAll_part {piece : Option (List Char)} {rest : List Char}
    (h : part? cs = some (piece, rest)) (hm : n + cs.length = m + rest.length) :
    (withinWord p text false n).readAll cs =
      (withinWord p (text.merge (· ++ ·) piece) false m).readAll rest := by
  cases isPart_of_part? h with
  | single cs =>
      rw [List.length_cons] at hm
      rw [readAll_cons_silent (next_withinWord_quote (.inl rfl)),
        readAll_singleQuoted (m := m) (by omega), getD_append]
  | double cs =>
      rw [List.length_cons] at hm
      rw [readAll_cons_silent (next_withinWord_quote (.inr rfl)),
        readAll_doubleQuoted (m := m) (by omega), getD_append]
  | trailing =>
      rw [readAll_cons_silent next_withinWord_backslash, readAll_withinWord_backslash,
        readAll_withinWord_nil, getD_append]
  | continuation =>
      have hn : n + 1 + 1 = m := by
        simp only [List.length_cons] at hm
        omega
      rw [readAll_cons_silent next_withinWord_backslash,
        readAll_cons_silent next_withinWord_continued, hn, Option.merge_none_right]
  | escaped hd =>
      have hn : n + 1 + 1 = m := by
        simp only [List.length_cons] at hm
        omega
      rw [readAll_cons_silent next_withinWord_backslash,
        readAll_cons_silent (next_withinWord_escaped hd), hn, getD_append]
  | bare hq hd he hb hs =>
      have hn : n + 1 = m := by
        rw [List.length_cons] at hm
        omega
      rw [readAll_cons_silent (next_withinWord_bare hb hs hq hd he), hn, getD_append]

theorem readAll_word (hm : n + cs.length = m + (word cs).2.length) :
    (withinWord p text false n).readAll cs =
      ((ready m m).readAll (word cs).2).map
        (wordToken p (text.merge (· ++ ·) (word cs).1) ++ ·) := by
  fun_induction word cs generalizing n text with
  | case1 cs h =>
      have hn : n = m := by simpa only [Nat.add_right_cancel_iff] using hm
      rw [hn, Option.merge_none_right]
      cases cs with
      | nil => rw [readAll_withinWord_nil, readAll_ready_nil]; simp [Except.map]
      | cons c cs =>
          rw [readAll, next_withinWord_break (part?_eq_none_iff.mp h), readAll]
          cases (ready m m).next c with
          | error fault => rfl
          | ok r =>
              simp only [Except.map]
              cases r.1.readAll cs with
              | error fault => rfl
              | ok ts => simp
  | case2 cs piece middle h content rest hr ih =>
      simp only [hr] at ih hm
      have hlt := part?_rest_lt h
      have hn : n + cs.length = n + (cs.length - middle.length) + middle.length := by omega
      have assoc : (text.merge (· ++ ·) piece).merge (· ++ ·) content =
          text.merge (· ++ ·) (piece.merge (· ++ ·) content) := Std.Associative.assoc _ _ _
      rw [readAll_part h hn, ih (by omega), assoc]

/-- Where the last token was looked for is forgotten with the next character. -/
theorem readAll_ready_eq : (ready p n).readAll cs = (ready m n).readAll cs := by
  cases cs with
  | nil => rfl
  | cons c cs => exact readAll_congr rfl cs

theorem readAll_operator {q : Char} {kind : Token.Kind}
    (hq : q = '|' ∨ q = '>' ∨ q = '<' ∨ q = '&')
    (hk : Glyph.singleOperators.lookup q.toString = some kind) (hne : ∀ ds, cs ≠ q :: ds) :
    (ready p n).readAll (q :: cs) =
      ((ready m (n + 1)).readAll cs).map (⟨q.toString, kind, n⟩ :: ·) := by
  rw [readAll_cons_silent (next_ready_operator hq)]
  cases cs with
  | nil => rw [readAll_afterOperator_nil hk, readAll_ready_nil]; rfl
  | cons c cs =>
      have hc : c ≠ q := by
        rintro rfl
        exact hne cs rfl
      rw [readAll_ready_eq (m := n + 1), readAll, next_afterOperator_single hk hc, readAll]
      cases (ready (n + 1) (n + 1)).next c with
      | error fault => rfl
      | ok r =>
          simp only [Except.map]
          cases r.1.readAll cs with
          | error fault => rfl
          | ok ts => rfl

theorem readAll_pair {q : Char} {kind : Token.Kind}
    (hq : q = '|' ∨ q = '>' ∨ q = '<' ∨ q = '&')
    (hk : Glyph.doubleOperators.lookup (q.toString.push q) = some kind) :
    (ready p n).readAll (q :: q :: cs) =
      ((ready m (n + 2)).readAll cs).map (⟨q.toString.push q, kind, n⟩ :: ·) := by
  rw [readAll_cons_silent (next_ready_operator hq), readAll_cons (next_afterOperator_pair hk),
    readAll_ready_eq (m := m)]
  rfl

theorem readAll_symbol {kind : Token.Kind} {size : Nat} (h : symbol? cs = some (kind, size)) :
    (ready p n).readAll cs =
      ((ready m (n + size)).readAll (cs.drop size)).map
        (⟨String.ofList (cs.take size), kind, n⟩ :: ·) := by
  unfold symbol? at h
  split at h <;> cases h
  · rw [readAll_cons next_ready_lparen, readAll_ready_eq (m := m)]
    rfl
  · rw [readAll_cons next_ready_rparen, readAll_ready_eq (m := m)]
    rfl
  · exact readAll_pair (by decide) rfl
  · exact readAll_pair (by decide) rfl
  · exact readAll_pair (by decide) rfl
  · exact readAll_pair (by decide) rfl
  · next hne => exact readAll_operator (by decide) rfl (by rintro ds rfl; exact hne ds rfl)
  · next hne => exact readAll_operator (by decide) rfl (by rintro ds rfl; exact hne ds rfl)
  · next hne => exact readAll_operator (by decide) rfl (by rintro ds rfl; exact hne ds rfl)
  · next hne => exact readAll_operator (by decide) rfl (by rintro ds rfl; exact hne ds rfl)

/-- From a scanner that has begun no token the rules take over at its offset. -/
theorem readAll_ready : (ready p n).readAll cs = .ok (tokens n cs) := by
  fun_induction tokens n cs generalizing p with
  | case1 n => rfl
  | case2 n c cs hb ih => rw [readAll_cons_silent (next_ready_blank hb), ih]
  | case3 n c cs hb kind size hs ih =>
      rw [readAll_symbol (m := n) hs, ih]
      rfl
  | case4 n c cs hb hs ih =>
      simp only [Bool.not_eq_true] at hb
      have hc : isSymbol c = false := by simp [← isSome_symbol? c cs, hs]
      have hle := word_rest_le (c :: cs)
      have hn : n + (c :: cs).length =
          n + ((c :: cs).length - (word (c :: cs)).2.length) + (word (c :: cs)).2.length := by
        omega
      rw [readAll_congr (next_ready_word hb hc), readAll_word hn, Option.merge_none_left, ih]
      rfl

/-- At any offset the scanner finishes its text without a fault, and its tokens are those of the
rules. -/
theorem scan_ready :
    ((ready p n).feed cs).fault = none ∧ ((ready p n).scan cs).fault = none ∧
      ((ready p n).scan cs).tokens = tokens n cs :=
  scan_of_readAll readAll_ready

end Scanner

theorem tokenize_eq_lexing (text : String) : tokenize text = Lexing.tokens 0 text.toList := by
  rw [tokenize, Scanner.new_eq_ready]
  exact Scanner.scan_ready.2.2

theorem tokenize_wellSpelled (text : String) : ∀ t ∈ tokenize text, t.WellSpelled := by
  rw [tokenize_eq_lexing]
  exact Lexing.tokens_wellSpelled 0 text.toList

/-- The scanner never fails, and what it makes of a text are the tokens of the scanning rules. -/
theorem tokenize_eq_tokens (text : String) :
    (Scanner.new.feed text.toList).fault = none ∧ (Scanner.new.scan text.toList).fault = none ∧
      tokenize text = Lexing.tokens 0 text.toList := by
  rw [Scanner.new_eq_ready]
  exact ⟨Scanner.scan_ready.1, Scanner.scan_ready.2.1, tokenize_eq_lexing text⟩

end ShellGrammar
