import ShellGrammar.Proofs.Console.Resuming
import ShellGrammar.Proofs.Lexing.Calls
import ShellGrammar.Proofs.Reading.Message

/-!
When a loop goes on with all that the one before it has left unfinished. It does so if no token was
completed in the unfinished lines. Otherwise it goes on with a part of them: there is a line that
ends what is left open and is refused for a parenthesis behind it, and the place that is told in the
message is neither that in the line nor that in the whole command.
-/
namespace ShellGrammar

/-- What is seen of an output; the log is kept elsewhere. -/
def Output.streams (o : Output) : String × String := (o.out, o.err)

namespace Scanner

/-- A line feed in what is open leads into a word or into quotes, with no backslash before it. -/
theorem feed_newline {s : Scanner} (h : s.Within) (hopen : s.closed = false) :
    ∃ p n, (∃ text, (s.feed ['\n']).scanner = withinWord p text false n) ∨
      ∃ q text, (q = '\'' ∨ q = '"') ∧ (s.feed ['\n']).scanner = withinQuotes q p text false n := by
  have hfeed {t : Scanner} (hnext : s.next '\n' = .ok (t, [])) : (s.feed ['\n']).scanner = t := by
    rw [Scanner.feed, hnext]
    rfl
  cases h with
  | ready | afterOperator => cases hopen
  | @withinWord p n text escape hp =>
      cases escape with
      | false => cases hopen
      | true => exact ⟨p, n + 1, .inl ⟨text, hfeed next_withinWord_continued⟩⟩
  | @withinQuotes q p n escape text hq hp =>
      refine ⟨p, n + 1, .inr ?_⟩
      rcases hq with rfl | ⟨rfl, rfl⟩
      · cases escape with
        | false => exact ⟨_, _, .inr rfl, hfeed (next_withinQuotes_double (by decide) (by decide))⟩
        | true => exact ⟨_, _, .inr rfl, hfeed next_withinQuotes_escaped⟩
      · exact ⟨_, _, .inl rfl, hfeed (next_withinQuotes_single (by decide))⟩

theorem feed_rparen (p n : Nat) (text : Option (List Char)) :
    (withinWord p text false n).feed [')'] =
      ⟨ready n (n + 1), Lexing.wordToken p text ++ [⟨")", .rparen, n⟩], none⟩ := by
  rw [Scanner.feed, next_withinWord_break (.inr (by decide)), next_ready_rparen]
  exact congrArg (Outcome.mk _ · _) (List.append_nil _)

end Scanner

namespace Line

/-- A parenthesis that closes nothing is refused, behind a word or alone. -/
theorem ofTokens_stray {d : Int} (hd : 1 ≤ d) (p n : Nat) (text : Option (List Char))
    (endPosition : Option Int) : ∃ e : SyntaxError,
      ofTokens (Lexing.wordToken p text ++ [⟨")", .rparen, n⟩]) d endPosition =
        .error (.rejected e) ∧
      e.index = (Lexing.wordToken p text).length ∧ e.position = n := by
  rw [ofTokens_eq hd]
  cases text with
  | none =>
      exact ⟨⟨.unexpectedToken, Reader.stageKinds, some ⟨")", .rparen, n⟩, 0, n,
        "expected a command"⟩, by with_unfolding_all rfl, rfl, rfl⟩
  | some text =>
      exact ⟨⟨.trailingInput, [], some ⟨")", .rparen, n⟩, 1, n, "unexpected trailing input"⟩,
        by with_unfolding_all rfl, rfl, rfl⟩

end Line

namespace Report

theorem failed_err_inj {m m' : String} (h : (failed m).err = (failed m').err) :
    m = m' := by
  have htoList := congrArg String.toList h
  simp only [failed, toString, String.toList_append, List.append_assoc] at htoList
  exact String.toList_inj.mp (List.append_cancel_right (List.append_cancel_left htoList))

theorem failed_err_ne_empty (m : String) : (failed m).err ≠ "" := by
  intro h
  have hends := String.append_eq_empty_iff.mp h
  exact absurd hends.2 (by decide)

theorem message_of_err_ofText {text m : String} {d : Int} (hd : 1 ≤ d) {layout : Layout}
    (h : (ofText text d layout).err = (failed m).err) :
    ∃ e, Line.parse text d = .error (.rejected e) ∧ e.message = m := by
  cases Line.ofTokens_ok_or_rejected (tokenize_wellSpelled text) hd (some text.length) with
  | inl hread =>
      obtain ⟨l, hl, _⟩ := hread
      have hparse : Line.parse text d = .ok l := hl
      rw [ofText, hparse] at h
      exact absurd h.symm (failed_err_ne_empty m)
  | inr hrejected =>
      obtain ⟨e, he⟩ := hrejected
      have hparse : Line.parse text d = .error (.rejected e) := he
      rw [ofText, hparse] at h
      exact ⟨e, hparse, failed_err_inj h⟩

/-- Without the tokens in front, a text is refused at the parenthesis that closes nothing. -/
theorem exists_err_without {joined : String} {ts : List Token} {text : Option (List Char)}
    {p n : Nat} {d : Int} (hd : 1 ≤ d)
    (h : tokenize joined = ts ++ (Lexing.wordToken p text ++ [⟨")", .rparen, n⟩]))
    (layout : Layout) : ∃ e : SyntaxError,
      (without ts.length joined d layout).err = (failed e.message).err ∧
        e.index = (Lexing.wordToken p text).length ∧ e.position = n := by
  obtain ⟨e, he, hplace⟩ := Line.ofTokens_stray hd p n text (some (joined.length : Int))
  refine ⟨e, ?_, hplace⟩
  rw [without, h, List.drop_left, he]
  rfl

end Report

namespace Console
open Scanner

theorem unfinished_cases (events : List Event) :
    unfinished [] events = [] ∨ ∃ before line, unfinished [] events = before ++ [line] ∧
      closes ("\n".intercalate (before ++ [line])) = false := by
  obtain rfl | ⟨events, e, rfl⟩ := List.eq_nil_or_concat events
  · exact .inl rfl
  · have hlast : unfinished [] (events ++ [e]) = (react (unfinished [] events) e).2 := by
      rw [unfinished, List.foldl_append]
      rfl
    rw [List.concat_eq_append, hlast]
    cases e with
    | interrupt => exact .inl rfl
    | line text =>
        simp only [react]
        split
        · exact .inl rfl
        · next hc => exact .inr ⟨unfinished [] events, text, rfl, Bool.not_eq_true _ ▸ hc⟩

/-- A line can end the word or the quotes that are left open, and then close a subshell. -/
theorem exists_closing_line {events : List Event} (h : completed (unfinished [] events) ≠ []) :
    ∃ line : String, (line = ")" ∨ closes line = false) ∧ ∃ p n text,
      (Scanner.new.feed (entered (unfinished [] events))).scanner.feed line.toList =
        ⟨ready n (n + 1), Lexing.wordToken p text ++ [⟨")", .rparen, n⟩], none⟩ := by
  have hne : unfinished [] events ≠ [] := fun hnil => h (by rw [hnil]; rfl)
  obtain ⟨before, last, hlines, hopen⟩ := (unfinished_cases events).resolve_left hne
  have hwithin := within_new.feed ("\n".intercalate (before ++ [last])).toList
  obtain ⟨p, n, hshape⟩ := feed_newline hwithin.2 hopen
  rw [toList_joined, feed_append (fault_feed_new _)] at hshape
  rw [hlines, scanner_entered_snoc]
  cases hshape with
  | inl hword =>
      obtain ⟨text, hword⟩ := hword
      rw [hword]
      exact ⟨")", .inl rfl, p, n, text, feed_rparen p n text⟩
  | inr hquotes =>
      obtain ⟨q, text, hq, hquotes⟩ := hquotes
      rw [hquotes]
      refine ⟨String.ofList [q, ')'], .inr ?_, p, n + 1, some text, ?_⟩
      · rcases hq with rfl | rfl <;> decide +kernel
      · rw [String.toList_ofList, Scanner.feed, next_withinQuotes_close hq]
        exact feed_rparen p (n + 1) (some text)

/-- The line completes the command, with the tokens that it adds to those completed before. -/
theorem complete_of_closing_line {lines : List String} {line : String} {p n : Nat}
    {text : Option (List Char)}
    (h : (Scanner.new.feed (entered lines)).scanner.feed line.toList =
      ⟨ready n (n + 1), Lexing.wordToken p text ++ [⟨")", .rparen, n⟩], none⟩) :
    closes ("\n".intercalate (lines ++ [line])) = true ∧
      tokenize ("\n".intercalate (lines ++ [line])) =
        completed lines ++ (Lexing.wordToken p text ++ [⟨")", .rparen, n⟩]) := by
  constructor
  · rw [closes, toList_joined, feed_append (fault_feed_new _), h]
    rfl
  · rw [tokenize_joined, scan, h]
    exact congrArg (completed lines ++ ·) (List.append_nil _)

/-- Alone, a closing line is not refused at a character behind its first one. -/
theorem err_alone_ne {line : String} (hline : line = ")" ∨ closes line = false) {d : Int}
    (hd : 1 ≤ d) {layout : Layout} {e : SyntaxError} {i n : Nat} (hi : e.index = i)
    (hn : e.position = n) (hpos : 0 < n) :
    ((react [] (.line line)).1.printed d layout).err ≠ (Report.failed e.message).err := by
  intro herr
  have hjoined : "\n".intercalate ([] ++ [line]) = line := String.intercalate_singleton
  simp only [react, hjoined] at herr
  rcases hline with rfl | hopen
  · have hcloses : closes ")" = true := by decide +kernel
    have htokens : tokenize ")" = Lexing.wordToken 0 none ++ [⟨")", .rparen, (0 : Nat)⟩] := by
      decide +kernel
    obtain ⟨e₀, he₀, hindex, hposition⟩ := Line.ofTokens_stray hd 0 0 none (some (")".length : Int))
    rw [← htokens] at he₀
    rw [hcloses, if_pos rfl] at herr
    obtain ⟨e₁, he₁, hmessage⟩ := Report.message_of_err_ofText hd herr
    cases he₀.symm.trans he₁
    have hzero := (SyntaxError.place_of_message_eq hmessage hindex hi).2 0 n hposition hn
    omega
  · rw [hopen, if_neg Bool.false_ne_true] at herr
    exact Report.failed_err_ne_empty _ herr.symm

section Loops
variable {d : Int} {layout : Layout} {c : Console} (h : new d layout = .ok c)
include h

/-- If tokens are lost, some line is answered neither as if it came alone nor as if it continued
the whole command: alone it is refused at its first character, if at all, and the whole command at
another place, if at all. -/
theorem exists_mixed_answer {first : List Event} (hlost : completed (unfinished [] first) ≠ []) :
    ∃ line, let resumed := ((c.loop first).2.answers [.line line]).map Output.streams
      resumed ≠ (c.answers [.line line]).map Output.streams ∧
      resumed ≠ ((c.answers (first ++ [.line line])).drop first.length).map Output.streams := by
  obtain ⟨hdepth, _⟩ := of_new h
  have hd : 1 ≤ d := hdepth ▸ Int.ofNat_le.mpr c.limit_pos
  obtain ⟨line, halone, p, n, text, hfeed⟩ := exists_closing_line hlost
  refine ⟨line, ?_⟩
  rw [answers_resumed h, answers_continued h, answers_of_new h]
  generalize unfinished [] first = lines at *
  have hk : 0 < (completed lines).length := List.length_pos_iff.mpr hlost
  obtain ⟨hcloses, htokens⟩ := complete_of_closing_line hfeed
  have hreactions : reactions lines [.line line] =
      [.complete ("\n".intercalate (lines ++ [line]))] := by
    simp only [reactions, react, hcloses, if_true]
  rw [hreactions]
  generalize "\n".intercalate (lines ++ [line]) = joined at *
  obtain ⟨e, hmixed, hindex, hposition⟩ := Report.exists_err_without hd htokens layout
  have hlast : (tokenize joined)[(completed lines).length + (Lexing.wordToken p text).length]? =
      some ⟨")", .rparen, n⟩ := by
    rw [htokens, List.getElem?_append_right (Nat.le_add_right _ _), Nat.add_sub_cancel_left,
      List.getElem?_append_right (Nat.le_refl _), Nat.sub_self]
    rfl
  have hpos : 0 < n := Int.ofNat_lt.mp (position_pos (Nat.add_pos_left hk _) hlast)
  refine ⟨fun hsame => ?_, fun hsame => ?_⟩
  · have herr := (congrArg Prod.snd (List.cons.inj hsame).1).symm.trans hmixed
    exact err_alone_ne halone hd hindex hposition hpos herr
  · have herr := (congrArg Prod.snd (List.cons.inj hsame).1).symm.trans hmixed
    obtain ⟨e', hparse, hmessage⟩ := Report.message_of_err_ofText hd herr
    exact Line.message_ne_of_missing hd hparse hk hindex hlast hposition hmessage

/-- After the end of the input a new loop answers as if the command under entry lacked the tokens
that are completed in its lines so far. If there are none it answers as the first loop would have
gone on; and only then is every input answered in this way or as it is without the first loop. -/
theorem answers_resumed_iff (first : List Event) :
    let resumed := (c.loop first).2
    let lines := unfinished [] first
    let continued (second : List Event) := (c.answers (first ++ second)).drop first.length
    (∀ second, resumed.answers second =
        printedWithout (completed lines).length d layout (reactions lines second)) ∧
      (completed lines = [] → ∀ second, resumed.answers second = continued second) ∧
      ((∀ second,
          (resumed.answers second).map Output.streams = (c.answers second).map Output.streams ∨
          (resumed.answers second).map Output.streams = (continued second).map Output.streams) ↔
        completed lines = []) := by
  intro resumed lines continued
  have hkept (hnone : completed lines = []) (second : List Event) :
      resumed.answers second = continued second := by
    simp only [resumed, continued, answers_resumed h, answers_continued h]
    rw [show completed (unfinished [] first) = [] from hnone]
    exact printedWithout_zero d layout _
  refine ⟨answers_resumed h first, hkept, fun hall => ?_, fun hnone second => ?_⟩
  · by_cases hlost : completed lines = []
    · exact hlost
    · obtain ⟨line, halone, hcontinued⟩ := exists_mixed_answer h hlost
      exact absurd (hall [.line line]) (not_or.mpr ⟨halone, hcontinued⟩)
  · exact .inr (congrArg (List.map Output.streams) (hkept hnone second))

end Loops

/-- A quotation that is continued, and one that has a word before it. -/
theorem answers_resumed_iff_quoted :
    let c : Console := ⟨⟨[], 128, none, 0, 0⟩, .text, .new, 0, false, by decide⟩
    new 128 .text = .ok c ∧
      (c.loop [.line "'a"]).2.answers [.line "b'"] =
        (c.answers [.line "'a", .line "b'"]).drop 1 ∧
      ¬∀ second, ((c.loop [.line "echo 'a"]).2.answers second).map Output.streams =
          (c.answers second).map Output.streams ∨
        ((c.loop [.line "echo 'a"]).2.answers second).map Output.streams =
          ((c.answers (.line "echo 'a" :: second)).drop 1).map Output.streams := by
  intro c
  have hnew : new 128 .text = .ok c := rfl
  obtain ⟨_, hkept, _⟩ := answers_resumed_iff hnew [.line "'a"]
  obtain ⟨_, _, hall⟩ := answers_resumed_iff hnew [.line "echo 'a"]
  have hnone : completed (unfinished [] [.line "'a"]) = [] := by decide +kernel
  have hlost : completed (unfinished [] [.line "echo 'a"]) ≠ [] := by decide +kernel
  exact ⟨rfl, hkept hnone [.line "b'"], mt hall.mp hlost⟩

/-- The word in front of the quotation is lost, and the quotation is kept. -/
theorem answers_resumed_echo :
    let c : Console := ⟨⟨[], 128, none, 0, 0⟩, .text, .new, 0, false, by decide⟩
    let shown (outputs : List Output) := outputs.map Output.out
    let resumed := shown ((c.loop [.line "echo 'a"]).2.answers [.line "b'"])
    new 128 .text = .ok c ∧ resumed = ["'a\nb'\n"] ∧
      ¬(resumed = shown (c.answers [.line "b'"]) ∨
        resumed = shown ((c.answers [.line "echo 'a", .line "b'"]).drop 1)) := by
  intro c shown resumed
  have hresumed : resumed = ["'a\nb'\n"] := by decide +kernel
  have halone : shown (c.answers [.line "b'"]) = [""] := by decide +kernel
  have hwhole : shown ((c.answers [.line "echo 'a", .line "b'"]).drop 1) = ["echo 'a\nb'\n"] := by
    decide +kernel
  rw [hresumed, halone, hwhole]
  exact ⟨rfl, rfl, by decide⟩

end Console
end ShellGrammar
