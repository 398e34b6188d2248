import ShellGrammar.Proofs.Lexing.Calls

/-!
A scanner can be used again. Whatever it was called for before, a reset makes it read a text as a
new scanner does, in pieces of any sizes: `resetState` lets the positions go on from the number of
characters read, `reset` begins with them anew. Behind the end of a text a scanner takes nothing
more and has nothing more to give.
-/
namespace ShellGrammar

/-- The token as it is when `n` more characters come before it. -/
def Token.moved (n : Nat) (t : Token) : Token := { t with position := t.position + n }

theorem Token.map_moved_zero (ts : List Token) : ts.map (moved 0) = ts := by
  rw [← List.map_id ts, List.map_map]
  exact List.map_congr_left fun t _ => by simp [moved]

namespace Lexing

theorem wordToken_add (n pos : Nat) (text : Option (List Char)) :
    wordToken (pos + n) text = (wordToken pos text).map (Token.moved n) := by
  cases text <;> rfl

/-- The tokens do not depend on where the text lies, only their positions do. -/
theorem tokens_add (n pos : Nat) (cs : List Char) :
    tokens (pos + n) cs = (tokens pos cs).map (Token.moved n) := by
  fun_induction tokens pos cs with
  | case1 => rw [tokens_nil]; rfl
  | case2 pos c cs hb ih => rw [tokens_blank hb, ← ih, Nat.add_right_comm]
  | case3 pos c cs hb kind size hs ih =>
      rw [tokens_symbol (Bool.not_eq_true _ ▸ hb) hs, List.map_cons, ← ih, Nat.add_right_comm]
      rfl
  | case4 pos c cs hb hs ih =>
      rw [tokens_word (Bool.not_eq_true _ ▸ hb) hs, List.map_append, ← ih, ← wordToken_add,
        Nat.add_right_comm]

end Lexing

namespace Scanner
variable {s : Scanner}

/-- The outcomes of feeding one text after the other, and the scanner that is left. -/
def feedEach (s : Scanner) : List String → List Outcome × Scanner
  | [] => ([], s)
  | piece :: pieces =>
    let first := s.feed piece.toList
    let (others, last) := first.scanner.feedEach pieces
    (first :: others, last)

/-- Fed with the pieces and then ended, the scanner raises no fault, completes the tokens in their
order and has counted the characters up to `offset`. -/
structure Completes (s : Scanner) (pieces : List String) (tokens : List Token) (offset : Nat) :
    Prop where
  fed : ∀ o ∈ (s.feedEach pieces).1, o.fault = none
  ended : (s.feedEach pieces).2.finish.fault = none
  tokens : (s.feedEach pieces).1.flatMap Outcome.tokens ++ (s.feedEach pieces).2.finish.tokens =
    tokens
  offset : (s.feedEach pieces).2.finish.scanner.offset = offset

/-- Pieces do to a scanner within a text what the text of them all does. -/
theorem feedEach_eq (h : s.Within) (pieces : List String) :
    (∀ o ∈ (s.feedEach pieces).1, o.fault = none) ∧
      s.feed (String.join pieces).toList =
        ⟨(s.feedEach pieces).2, (s.feedEach pieces).1.flatMap Outcome.tokens, none⟩ := by
  induction pieces generalizing s with
  | nil => exact ⟨fun o ho => absurd ho List.not_mem_nil, rfl⟩
  | cons piece pieces ih =>
      obtain ⟨hfault, hwithin⟩ := h.feed piece.toList
      obtain ⟨hfed, heq⟩ := ih hwithin
      refine ⟨List.forall_mem_cons.mpr ⟨hfault, hfed⟩, ?_⟩
      rw [String.join_cons, String.toList_append, feed_append hfault, heq]
      rfl

theorem completes_ready (n : Nat) (pieces : List String) :
    (ready n n).Completes pieces ((tokenize (String.join pieces)).map (Token.moved n))
      (n + (String.join pieces).length) := by
  have hwithin : (ready n n).Within := .ready (Nat.le_refl n)
  have hscan := @scan_ready n n (String.join pieces).toList
  obtain ⟨hfed, heq⟩ := feedEach_eq hwithin pieces
  obtain ⟨hfault, hended, htokens⟩ := hscan
  have hoffset := offset_feed hfault
  simp only [scan, heq] at hended htokens hoffset
  refine ⟨hfed, hended, ?_, ?_⟩
  · rw [htokens, tokenize_eq_lexing, ← Lexing.tokens_add, Nat.zero_add]
  · rw [offset_finish, hoffset]
    rfl

/-- After any calls, a scanner that is reset completes the tokens of a text from its pieces: with
positions that go on from the characters read before, or as if it were new. Behind the end of a text
it refuses every character and is left as it was, and a second end completes nothing. -/
theorem completes_after_calls (calls : List Call) (pieces : List String) :
    let s := new.after calls
    let text := String.join pieces
    s.resetState.Completes pieces ((tokenize text).map (Token.moved s.offset))
        (s.offset + text.length) ∧
      s.reset.Completes pieces (tokenize text) text.length ∧
      (s.mode = .final → s.finish = ⟨s, [], none⟩ ∧
        ∀ more, more ≠ "" → s.feed more.toList = ⟨s, [], some .finished⟩) ∧
      s.finish.scanner.finish = ⟨s.finish.scanner, [], none⟩ := by
  intro s text
  have hs : s.Standing := standing_after (.inl within_new) calls
  have hreset := completes_ready 0 pieces
  rw [Token.map_moved_zero, Nat.zero_add] at hreset
  refine ⟨completes_ready s.offset pieces, hreset, fun hfinal => ⟨?_, fun more hmore => ?_⟩, ?_⟩
  · obtain ⟨quote, n, hquote⟩ := hs.resolve_left fun hwithin => hwithin.mode_ne_final hfinal
    rw [hquote, finish_finished]
  · obtain ⟨c, cs, hcs⟩ := List.exists_cons_of_ne_nil (mt String.toList_eq_nil_iff.mp hmore)
    rw [hcs, feed_final hfinal]
  · rcases hs with hwithin | ⟨quote, n, hquote⟩
    · obtain ⟨_, quote, hfinish⟩ := hwithin.finish
      rw [hfinish, finish_finished]
    · rw [hquote, finish_finished, finish_finished]

/-- A scanner that has met the end of a text within a quotation and was fed once more. -/
theorem completes_after_calls_unterminated :
    let s := new.after [.feed "a 'b", .finish, .feed "c"]
    s.inQuotes = true ∧
      s.resetState.Completes ["d|", "|\"e ", "f\\"]
        [⟨"d", .word, 4⟩, ⟨"||", .orOr, 5⟩, ⟨"e f\\", .word, 7⟩] 12 ∧
      s.finish = ⟨s, [], none⟩ ∧ s.feed ['g'] = ⟨s, [], some .finished⟩ := by
  intro s
  obtain ⟨hcompletes, _, hfinal, _⟩ :=
    completes_after_calls [.feed "a 'b", .finish, .feed "c"] ["d|", "|\"e ", "f\\"]
  have hoffset : s.offset = 4 := by decide +kernel
  have htokens : (tokenize (String.join ["d|", "|\"e ", "f\\"])).map (Token.moved 4) =
      [⟨"d", .word, 4⟩, ⟨"||", .orOr, 5⟩, ⟨"e f\\", .word, 7⟩] := by decide +kernel
  have hlength : 4 + (String.join ["d|", "|\"e ", "f\\"]).length = 12 := by decide +kernel
  rw [hoffset, htokens, hlength] at hcompletes
  obtain ⟨hend, hrefused⟩ := hfinal (by decide +kernel)
  exact ⟨by decide +kernel, hcompletes, hend, hrefused "g" (by decide)⟩

end Scanner
end ShellGrammar
