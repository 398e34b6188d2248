import ShellGrammar.Proofs.Lexing.Rules

/-!
The states that a scanner passes through, and what one character or the end of the text does to
each of them. The states between two characters have five shapes: no token begun, an operator
character read, a word outside quotes and one inside quotes, the last two with or without a
backslash that waits for its character.
-/
namespace ShellGrammar.Scanner
open Text

/-- The tokens of a text read to its end, or the fault that stopped the scanner. -/
def readAll (s : Scanner) : List Char → Except Fault (List Token)
  | [] =>
    match s.finish.fault with
    | some fault => .error fault
    | none => .ok s.finish.tokens
  | c :: cs =>
    match s.next c with
    | .error fault => .error fault
    | .ok (next, before) => (next.readAll cs).map (before ++ ·)

theorem readAll_cons {s next : Scanner} {c : Char} {before : List Token}
    (h : s.next c = .ok (next, before)) (cs : List Char) :
    s.readAll (c :: cs) = (next.readAll cs).map (before ++ ·) := by
  rw [readAll, h]

theorem readAll_cons_silent {s next : Scanner} {c : Char} (h : s.next c = .ok (next, []))
    (cs : List Char) : s.readAll (c :: cs) = next.readAll cs := by
  rw [readAll_cons h]
  cases next.readAll cs <;> simp [Except.map]

theorem readAll_congr {s t : Scanner} {c : Char} (h : s.next c = t.next c) (cs : List Char) :
    s.readAll (c :: cs) = t.readAll (c :: cs) := by
  rw [readAll, readAll, h]

/-- A text that can be read to its end raises no fault on the way. -/
theorem scan_of_readAll {s : Scanner} {cs : List Char} {ts : List Token}
    (h : s.readAll cs = .ok ts) :
    (s.feed cs).fault = none ∧ (s.scan cs).fault = none ∧ (s.scan cs).tokens = ts := by
  induction cs generalizing s ts with
  | nil =>
      rw [readAll] at h
      split at h
      · cases h
      · next hf =>
        cases h
        exact ⟨rfl, hf, rfl⟩
  | cons c cs ih =>
      rw [readAll] at h
      split at h
      · cases h
      · next next before hn =>
        cases hr : next.readAll cs with
        | error fault =>
            rw [hr] at h
            cases h
        | ok after =>
            rw [hr] at h
            cases h
            obtain ⟨hfeed, hfault, htokens⟩ := ih hr
            simp only [scan] at hfault htokens
            simp only [scan, feed, hn]
            refine ⟨hfeed, hfault, ?_⟩
            rw [← htokens, List.append_assoc]

/-- No token has been begun; `p` is where the last one was looked for. -/
def ready (p n : Nat) : Scanner := ⟨.initial, .blank p, false, false, none, n⟩

def afterOperator (c : Char) (p n : Nat) : Scanner :=
  ⟨.operator, ⟨c.toString, none, p⟩, false, false, none, n⟩

/-- A word outside quotes; it has no text before anything but line continuations is read. -/
def withinWord (p : Nat) (text : Option (List Char)) (escape : Bool) (n : Nat) : Scanner :=
  ⟨.word, ⟨String.ofList (text.getD []), text.map fun _ => .word, p⟩, escape, false, none, n⟩

def withinQuotes (q : Char) (p : Nat) (text : List Char) (escape : Bool) (n : Nat) : Scanner :=
  ⟨.quotes, ⟨String.ofList text, some .word, p⟩, escape, true, some q, n⟩

theorem new_eq_ready : new = ready 0 0 := rfl

section Steps
variable {c q : Char} {text : Option (List Char)} {cs : List Char} {p n : Nat}

theorem next_of_dispatch {s after : Scanner} {g : Glyph} {ts : List Token} (hg : s.glyph c = g)
    (h : s.dispatch g = .ok (after, ts)) :
    s.next c = .ok
      ({ after with escape := g.isEscape && after.escape, offset := after.offset + 1 }, ts) := by
  rw [next, hg, h]
  rfl

theorem next_ready_blank (h : isBlank c = true) :
    (ready p n).next c = .ok (ready n (n + 1), []) := by
  simp [next, ready, glyph, dispatch, nextInitial, Glyph.isBlank, Glyph.isEscape, h,
    Pending.blank, bind, Except.bind, pure, Except.pure]

theorem next_ready_lparen : (ready p n).next '(' = .ok (ready n (n + 1), [⟨"(", .lparen, n⟩]) := by
  rfl

theorem next_ready_rparen : (ready p n).next ')' = .ok (ready n (n + 1), [⟨")", .rparen, n⟩]) := by
  rfl

theorem next_ready_operator (h : c = '|' ∨ c = '>' ∨ c = '<' ∨ c = '&') :
    (ready p n).next c = .ok (afterOperator c n (n + 1), []) := by
  rcases h with rfl | rfl | rfl | rfl <;> rfl

theorem next_ready_word (hb : isBlank c = false) (hs : Lexing.isSymbol c = false) :
    (ready p n).next c = (withinWord n none false n).next c := by
  simp [Lexing.isSymbol] at hs
  simp [next, ready, withinWord, glyph, dispatch, nextInitial, Glyph.isBlank, Glyph.isDelimiter,
    Glyph.isLParen, Glyph.isRParen, Glyph.isOperator, hb, hs, Pending.blank]

theorem next_withinWord_break (h : isBlank c = true ∨ Lexing.isSymbol c = true) :
    (withinWord p text false n).next c =
      ((ready n n).next c).map fun r => (r.1, Lexing.wordToken p text ++ r.2) := by
  rcases h with h | h
  · have hq : c ≠ '\'' := by rintro rfl; exact absurd h (by decide)
    have hd : c ≠ '"' := by rintro rfl; exact absurd h (by decide)
    have he : c ≠ '\\' := by rintro rfl; exact absurd h (by decide)
    rw [next_ready_blank h]
    cases text <;>
      simp [next, withinWord, glyph, dispatch, nextInWord, push, Pending.token?, Glyph.isBlank,
        Glyph.isEscape, Glyph.isQuote, h, hq, hd, he, ready, Lexing.wordToken, bind, Except.bind,
        pure, Except.pure, Except.map]
  · simp only [Lexing.isSymbol, List.contains_iff_mem, List.mem_cons, List.not_mem_nil,
      or_false] at h
    rcases h with rfl | rfl | rfl | rfl | rfl | rfl <;> cases text <;> rfl

theorem next_withinWord_quote (h : c = '\'' ∨ c = '"') :
    (withinWord p text false n).next c =
      .ok (withinQuotes c p (text.getD []) false (n + 1), []) := by
  rcases h with rfl | rfl <;> rfl

theorem next_withinWord_backslash :
    (withinWord p text false n).next '\\' = .ok (withinWord p text true (n + 1), []) := by
  rfl

theorem next_withinWord_bare (hb : isBlank c = false) (hs : Lexing.isSymbol c = false)
    (hq : c ≠ '\'') (hd : c ≠ '"') (he : c ≠ '\\') :
    (withinWord p text false n).next c =
      .ok (withinWord p (some (text.getD [] ++ [c])) false (n + 1), []) := by
  simp [Lexing.isSymbol] at hs
  simp [next, withinWord, glyph, dispatch, nextInWord, Glyph.isBlank, Glyph.isDelimiter,
    Glyph.isEscape, Glyph.isQuote, Glyph.isLParen, Glyph.isRParen, Glyph.isOperator, hb, hs, hq, hd,
    he, bind, Except.bind, pure, Except.pure]

theorem next_withinWord_continued :
    (withinWord p text true n).next '\n' = .ok (withinWord p text false (n + 1), []) := by
  rfl

theorem next_withinWord_escaped (h : c ≠ '\n') :
    (withinWord p text true n).next c =
      .ok (withinWord p (some (text.getD [] ++ [c])) false (n + 1), []) := by
  simp [next, withinWord, glyph, dispatch, nextInWord, Glyph.isBlank, Glyph.isDelimiter,
    Glyph.isEscape, Glyph.isQuote, Glyph.isLParen, Glyph.isRParen, Glyph.isOperator, h, bind,
    Except.bind, pure, Except.pure]

theorem next_withinQuotes_close (h : q = '\'' ∨ q = '"') :
    (withinQuotes q p cs false n).next q = .ok (withinWord p (some cs) false (n + 1), []) := by
  rcases h with rfl | rfl <;> rfl

theorem next_withinQuotes_single (h : c ≠ '\'') :
    (withinQuotes '\'' p cs false n).next c =
      .ok (withinQuotes '\'' p (cs ++ [c]) false (n + 1), []) := by
  simp [next, withinQuotes, glyph, dispatch, nextInQuotes, Glyph.isQuote, Glyph.isEscape, h, bind,
    Except.bind, pure, Except.pure]

theorem next_withinQuotes_backslash :
    (withinQuotes '"' p cs false n).next '\\' = .ok (withinQuotes '"' p cs true (n + 1), []) := by
  rfl

theorem next_withinQuotes_double (hd : c ≠ '"') (he : c ≠ '\\') :
    (withinQuotes '"' p cs false n).next c =
      .ok (withinQuotes '"' p (cs ++ [c]) false (n + 1), []) := by
  simp [next, withinQuotes, glyph, dispatch, nextInQuotes, Glyph.isQuote, Glyph.isEscape, hd, he,
    bind, Except.bind, pure, Except.pure]

theorem next_withinQuotes_escaped :
    (withinQuotes '"' p cs true n).next c =
      .ok (withinQuotes '"' p (cs ++ if c = '"' ∨ c = '\\' then [c] else ['\\', c]) false (n + 1),
        []) := by
  by_cases hd : c = '"'
  · simp [next, withinQuotes, glyph, dispatch, nextInQuotes, Glyph.isQuote, Glyph.isEscape, hd,
      bind, Except.bind, pure, Except.pure, ← String.toList_inj]
  · by_cases he : c = '\\'
    · simp [next, withinQuotes, glyph, dispatch, nextInQuotes, Glyph.isQuote, Glyph.isEscape, he,
        bind, Except.bind, pure, Except.pure, ← String.toList_inj]
    · simp [next, withinQuotes, glyph, dispatch, nextInQuotes, Glyph.isQuote, Glyph.isEscape, hd,
        he, bind, Except.bind, pure, Except.pure, ← String.toList_inj]

/-- Every operator of two characters is one character written twice. -/
theorem doubleOperators_lookup_of_ne (h : c ≠ q) :
    Glyph.doubleOperators.lookup (q.toString.push c) = none := by
  have hne (d : Char) : (q.toString.push c == (d.toString.push d)) = false := by
    rw [beq_eq_false_iff_ne, ne_eq, ← String.toList_inj]
    intro he
    simp only [String.toList_push, Char.toString, String.toList_singleton, List.cons_append,
      List.nil_append, List.cons.injEq, and_true] at he
    exact h (he.2.trans he.1.symm)
  have h1 : (q.toString.push c == "&&") = false := hne '&'
  have h2 : (q.toString.push c == "||") = false := hne '|'
  have h3 : (q.toString.push c == ">>") = false := hne '>'
  have h4 : (q.toString.push c == "<<") = false := hne '<'
  simp only [Glyph.doubleOperators, List.lookup_cons, List.lookup_nil, h1, h2, h3, h4]

theorem next_afterOperator_pair {kind : Token.Kind}
    (h : Glyph.doubleOperators.lookup (q.toString.push c) = some kind) :
    (afterOperator q p n).next c = .ok (ready n (n + 1), [⟨q.toString.push c, kind, p⟩]) := by
  have hpair : (afterOperator q p n).pairOperator? ⟨c, true⟩ = some kind := h
  have hs : (afterOperator q p n).dispatch ⟨c, true⟩ =
      .ok (ready n n, [⟨q.toString.push c, kind, p⟩]) := by
    change (afterOperator q p n).nextAfterOperator ⟨c, true⟩ = _
    simp only [nextAfterOperator, hpair]
    rfl
  rw [next_of_dispatch rfl hs]
  simp [ready]

theorem next_afterOperator_single {kind : Token.Kind}
    (hk : Glyph.singleOperators.lookup q.toString = some kind) (h : c ≠ q) :
    (afterOperator q p n).next c =
      ((ready n n).next c).map fun r => (r.1, ⟨q.toString, kind, p⟩ :: r.2) := by
  have hpair : (afterOperator q p n).pairOperator? ⟨c, true⟩ = none :=
    doubleOperators_lookup_of_ne h
  have hpush : (afterOperator q p n).pushOperator =
      .ok (ready n n, [⟨q.toString, kind, p⟩]) := by
    simp only [pushOperator, afterOperator, hk]
    rfl
  have hs : (afterOperator q p n).dispatch ⟨c, true⟩ =
      .ok (((ready n n).nextInitial ⟨c, true⟩).1,
        ⟨q.toString, kind, p⟩ :: ((ready n n).nextInitial ⟨c, true⟩).2) := by
    change (afterOperator q p n).nextAfterOperator ⟨c, true⟩ = _
    simp only [nextAfterOperator, hpair, hpush]
    rfl
  rw [next_of_dispatch rfl hs]
  rfl

theorem readAll_ready_nil : (ready p n).readAll [] = .ok [] := by rfl

theorem readAll_afterOperator_nil {kind : Token.Kind}
    (hk : Glyph.singleOperators.lookup q.toString = some kind) :
    (afterOperator q p n).readAll [] = .ok [⟨q.toString, kind, p⟩] := by
  have hpush : (afterOperator q p n).pushOperator =
      .ok (ready n n, [⟨q.toString, kind, p⟩]) := by
    simp only [pushOperator, afterOperator, hk]
    rfl
  have hf : (afterOperator q p n).finish =
      ⟨{ ready n n with mode := .final }, [⟨q.toString, kind, p⟩], none⟩ := by
    change (match (afterOperator q p n).pushOperator with
      | .error fault => (⟨afterOperator q p n, [], some fault⟩ : Outcome)
      | .ok (s, tokens) => ⟨{ s with mode := .final }, tokens, none⟩) = _
    rw [hpush]
  rw [readAll, hf]

theorem readAll_withinWord_nil :
    (withinWord p text false n).readAll [] = .ok (Lexing.wordToken p text) := by
  cases text <;> rfl

theorem readAll_withinWord_backslash :
    (withinWord p text true n).readAll [] =
      .ok (Lexing.wordToken p (some (text.getD [] ++ ['\\']))) := by
  simp [readAll, finish, withinWord, settle, push, Pending.token?, Lexing.wordToken,
    ← String.toList_inj]

theorem readAll_withinQuotes_nil :
    (withinQuotes q p cs false n).readAll [] = .ok (Lexing.wordToken p (some cs)) := by
  rfl

theorem readAll_withinQuotes_backslash :
    (withinQuotes q p cs true n).readAll [] =
      .ok (Lexing.wordToken p (some (cs ++ ['\\']))) := by
  simp [readAll, finish, withinQuotes, settle, push, Pending.token?, Lexing.wordToken,
    ← String.toList_inj]

end Steps
end ShellGrammar.Scanner
