import ShellGrammar.Proofs.Lexing.Reuse

/-!
Texts with blanks between them. Behind a text that leaves no quote and no backslash open, a blank
does to the scanner what the end of the text does: the same tokens are completed, and none is begun.
So the tokens of texts joined by blanks are those of each text, moved to where the text begins.
-/
namespace ShellGrammar
open Text Lexing

namespace Scanner
variable {s t : Scanner} {c : Char}

/-- The end of the text and a blank complete the same tokens. -/
theorem Within.next_blank (h : s.Within) (hs : s.closed = true) (hc : isBlank c = true) :
    ∃ p, s.next c = .ok (Scanner.ready p (s.offset + 1), s.finish.tokens) := by
  cases h with
  | @ready p n => exact ⟨n, next_ready_blank hc⟩
  | @afterOperator q p n hq =>
      have hne : c ≠ q := by
        rintro rfl
        rcases hq with rfl | rfl | rfl | rfl <;> exact absurd hc (by decide)
      refine ⟨n, ?_⟩
      rcases hq with rfl | rfl | rfl | rfl <;>
        rw [next_afterOperator_single rfl hne, next_ready_blank hc] <;> rfl
  | @withinWord p n text escape =>
      cases escape with
      | true => cases hs
      | false =>
          refine ⟨n, ?_⟩
          rw [next_withinWord_break (.inl hc), next_ready_blank hc]
          cases text <;> rfl
  | withinQuotes => cases hs

theorem tokens_scan_cons {before : List Token} (h : s.next c = .ok (t, before)) (cs : List Char) :
    (s.scan (c :: cs)).tokens = before ++ (t.scan cs).tokens := by
  simp only [scan, feed, h, List.append_assoc]

end Scanner

theorem Token.moved_moved (m n : Nat) (t : Token) : (t.moved m).moved n = t.moved (n + m) := by
  simp only [moved, Token.mk.injEq, true_and]
  omega

/-- A blank behind the text sets its tokens apart from those of any text that follows. -/
def Separable (a : String) : Prop :=
  ∀ (b : String) (c : Char), isBlank c = true →
    tokenize (a ++ String.singleton c ++ b) =
      tokenize a ++ (tokenize b).map (Token.moved (a.length + 1))

/-- A text is separable if nothing is left open at its end. -/
theorem separable_of_closed {a : String}
    (h : (Scanner.new.feed a.toList).scanner.closed = true) : Separable a := by
  intro b c hc
  have hoffset : (Scanner.new.feed a.toList).scanner.offset = a.length :=
    (Scanner.offset_feed (Scanner.fault_feed_new _)).trans (Nat.zero_add _)
  obtain ⟨p, hnext⟩ := (Scanner.within_new.feed a.toList).2.next_blank h hc
  have hb : ((Scanner.ready p (a.length + 1)).scan b.toList).tokens =
      (tokenize b).map (Token.moved (a.length + 1)) := by
    rw [Scanner.scan_ready.2.2, tokenize_eq_lexing, ← tokens_add, Nat.zero_add]
  rw [hoffset] at hnext
  calc tokenize (a ++ String.singleton c ++ b)
      = (Scanner.new.scan (a.toList ++ c :: b.toList)).tokens := by
        simp only [tokenize, String.toList_append, String.toList_singleton, List.append_assoc,
          List.singleton_append]
    _ = (Scanner.new.feed a.toList).tokens ++
          ((Scanner.new.feed a.toList).scanner.scan (c :: b.toList)).tokens :=
        Scanner.tokens_scan_append (Scanner.fault_feed_new _) _
    _ = tokenize a ++ (tokenize b).map (Token.moved (a.length + 1)) := by
        rw [Scanner.tokens_scan_cons hnext, hb, ← List.append_assoc]
        rfl

/-- Where the text with the number `i` begins if single characters stand between the texts. -/
def joinedOffset (texts : List String) (i : Nat) : Nat :=
  ((texts.take i).map String.length).foldr (· + ·) 0 + i

/-- The tokens of each text, moved to where it begins if single characters stand between them. -/
def joinedTokens (texts : List String) : List Token :=
  (texts.mapIdx fun i a => (tokenize a).map (Token.moved (joinedOffset texts i))).flatten

theorem map_mapIdx {α β γ : Type} (g : β → γ) (f : Nat → α → β) (as : List α) :
    (as.mapIdx f).map g = as.mapIdx fun i a => g (f i a) := by
  rw [List.mapIdx_eq_zipIdx_map, List.mapIdx_eq_zipIdx_map, List.map_map]
  rfl

theorem joinedOffset_cons_succ (a : String) (texts : List String) (i : Nat) :
    joinedOffset (a :: texts) (i + 1) = a.length + 1 + joinedOffset texts i := by
  simp only [joinedOffset, List.take_succ_cons, List.map_cons, List.foldr_cons]
  omega

theorem joinedTokens_cons (a : String) (texts : List String) :
    joinedTokens (a :: texts) =
      tokenize a ++ (joinedTokens texts).map (Token.moved (a.length + 1)) := by
  have hmoved (i : Nat) (b : String) :
      (tokenize b).map (Token.moved (joinedOffset (a :: texts) (i + 1))) =
        ((tokenize b).map (Token.moved (joinedOffset texts i))).map
          (Token.moved (a.length + 1)) := by
    rw [List.map_map, joinedOffset_cons_succ]
    exact List.map_congr_left fun t _ => (Token.moved_moved _ _ t).symm
  have hfirst : (tokenize a).map (Token.moved (joinedOffset (a :: texts) 0)) = tokenize a :=
    Token.map_moved_zero _
  rw [joinedTokens, joinedTokens, List.mapIdx_cons, List.flatten_cons, hfirst, List.map_flatten,
    map_mapIdx]
  simp only [hmoved]

/-- All texts but the last one must be separable. -/
theorem tokenize_intercalate {texts : List String} (h : ∀ a ∈ texts.dropLast, Separable a) :
    tokenize (" ".intercalate texts) = joinedTokens texts := by
  induction texts with
  | nil => rfl
  | cons a texts ih =>
      rw [joinedTokens_cons]
      cases texts with
      | nil => exact (List.append_nil _).symm
      | cons b texts =>
          rw [List.dropLast_cons_cons, List.forall_mem_cons] at h
          rw [String.intercalate_cons_cons, ← ih h.2]
          exact h.1 _ ' ' (by decide)

/-- Behind a text that leaves no quote and no backslash open, a blank keeps the tokens of the next
text apart. So the tokens of texts joined by blanks are those of each text, in their places, if only
the last one leaves anything open. -/
theorem tokenize_separated :
    (∀ (a b : String) (c : Char), (Scanner.new.feed a.toList).scanner.closed = true →
        isBlank c = true →
          tokenize (a ++ String.singleton c ++ b) =
            tokenize a ++ (tokenize b).map (Token.moved (a.length + 1))) ∧
      ∀ texts : List String,
        (∀ a ∈ texts.dropLast, (Scanner.new.feed a.toList).scanner.closed = true) →
          tokenize (" ".intercalate texts) = joinedTokens texts :=
  ⟨fun _ b c ha hc => separable_of_closed ha b c hc,
    fun _ h => tokenize_intercalate fun a ha => separable_of_closed (h a ha)⟩

/-- An operator, a quotation and a line continuation before a blank; the last text is left open. -/
theorem tokenize_separated_open :
    tokenize "a|\u3000|'b" = [⟨"a", .word, 0⟩, ⟨"|", .pipe, 1⟩, ⟨"|", .pipe, 3⟩, ⟨"b", .word, 4⟩] ∧
      tokenize (" ".intercalate ["a 'b c'>", "\\\n", "&", "", "\"d"]) =
        [⟨"a", .word, 0⟩, ⟨"b c", .word, 2⟩, ⟨">", .redirOut, 7⟩, ⟨"&", .word, 12⟩,
          ⟨"d", .word, 15⟩] := by
  have hblank := tokenize_separated.1 "a|" "|'b" '\u3000' (by decide +kernel) (by decide)
  have hjoined := tokenize_separated.2 ["a 'b c'>", "\\\n", "&", "", "\"d"] (by decide +kernel)
  exact ⟨hblank.trans (by decide +kernel), hjoined.trans (by decide +kernel)⟩

end ShellGrammar
