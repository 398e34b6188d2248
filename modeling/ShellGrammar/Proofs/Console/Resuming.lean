import ShellGrammar.Proofs.Console.History

/-!
What becomes of a command that the end of the input leaves unfinished. The scanner of the console
outlasts the loop, but the tokens that it has completed do not: the next loop goes on with the word
that was being read, and the command it completes lacks all tokens before this word. The commands
that follow lack nothing.
-/
namespace ShellGrammar

/-- The report on the text without its first `k` tokens. -/
def Report.without (k : Nat) (text : String) (maxDepth : Int) (layout : Layout) : Report :=
  let left := (tokenize text).drop k
  ofResult left.length (Line.ofTokens left maxDepth (some text.length)) layout

theorem Report.raised_without {d : Int} (hd : 1 ≤ d) (k : Nat) (text : String) (layout : Layout) :
    (without k text d layout).raised = none :=
  raised_ofTokens (fun t ht => tokenize_wellSpelled text t (List.mem_of_mem_drop ht)) hd

namespace Console
open Scanner

/-- The lines of the unfinished command after the events. -/
def unfinished (lines : List String) (events : List Event) : List String :=
  events.foldl (fun lines e => (react lines e).2) lines

/-- The tokens that are completed within the lines of an unfinished command. -/
def completed (lines : List String) : List Token := (Scanner.new.feed (entered lines)).tokens

/-- What is printed for each event of a loop. -/
def answers (c : Console) (events : List Event) : List Output :=
  (c.loop events).1.tail.map Exchange.printed

/-- What is printed for the reactions if the first command to be completed lacks `k` tokens. -/
def printedWithout (k : Nat) (maxDepth : Int) (layout : Layout) : List Reaction → List Output
  | [] => []
  | .continued :: rs => .empty :: printedWithout k maxDepth layout rs
  | .dropped :: rs => Reaction.dropped.printed maxDepth layout :: rs.map (·.printed maxDepth layout)
  | .complete text :: rs =>
    (Report.without k text maxDepth layout).toOutput :: rs.map (·.printed maxDepth layout)

theorem printedWithout_zero (maxDepth : Int) (layout : Layout) (rs : List Reaction) :
    printedWithout 0 maxDepth layout rs = rs.map (·.printed maxDepth layout) := by
  induction rs with
  | nil => rfl
  | cons r rs ih =>
      cases r with
      | complete text => rfl
      | continued => rw [printedWithout, ih]; rfl
      | dropped => rfl

theorem reactions_append (lines : List String) (es fs : List Event) :
    reactions lines (es ++ fs) = reactions lines es ++ reactions (unfinished lines es) fs := by
  induction es generalizing lines with
  | nil => rfl
  | cons e es ih => exact congrArg (_ :: ·) (ih _)

theorem length_reactions (lines : List String) (es : List Event) :
    (reactions lines es).length = es.length := by
  induction es generalizing lines with
  | nil => rfl
  | cons e es ih => exact congrArg (· + 1) (ih _)

/-- The tokens of a command are those completed in its first lines and those of its last line. -/
theorem tokenize_joined (lines : List String) (line : String) :
    tokenize ("\n".intercalate (lines ++ [line])) =
      completed lines ++ ((Scanner.new.feed (entered lines)).scanner.scan line.toList).tokens := by
  rw [tokenize, toList_joined, tokens_scan_append (fault_feed_new _)]
  rfl

theorem scanner_entered_snoc (lines : List String) (line : String) :
    (Scanner.new.feed (entered (lines ++ [line]))).scanner =
      let read := (Scanner.new.feed (entered lines)).scanner.feed line.toList
      (read.scanner.feed ['\n']).scanner := by
  rw [entered_snoc, feed_append (fault_feed_new _), feed_append (fault_feed_new _)]

theorem completed_snoc (lines : List String) (line : String) :
    completed (lines ++ [line]) =
      let read := (Scanner.new.feed (entered lines)).scanner.feed line.toList
      completed lines ++ (read.tokens ++ (read.scanner.feed ['\n']).tokens) := by
  rw [completed, entered_snoc, feed_append (fault_feed_new _), feed_append (fault_feed_new _)]
  exact List.append_assoc _ _ _

namespace Session
variable {s : Session} {lines : List String} {k : Nat}

/-- The session has the scanner of the characters entered, and all but the first `k` tokens. -/
structure Lacks (s : Session) (k : Nat) (lines : List String) : Prop where
  scanner : s.console.scanner = (Scanner.new.feed (entered lines)).scanner
  buffer : s.buffer = (completed lines).drop k
  le : k ≤ (completed lines).length

section Lacks
variable (h : s.Lacks k lines) (text : String)
include h

/-- More text leads the scanner to where the text of the whole command leads it. -/
theorem Lacks.scanner_feed : (s.console.scanner.feed text.toList).scanner =
    (Scanner.new.feed ("\n".intercalate (lines ++ [text])).toList).scanner := by
  rw [toList_joined, feed_append (fault_feed_new _), h.scanner]

theorem Lacks.tokens : s.buffer ++ (s.console.scanner.feed text.toList).tokens ++
      (s.console.scanner.feed text.toList).scanner.finish.tokens =
    (tokenize ("\n".intercalate (lines ++ [text]))).drop k := by
  rw [tokenize_joined, List.drop_append_of_le_length h.le, ← h.buffer, ← h.scanner]
  exact List.append_assoc _ _ _

theorem Lacks.step_complete (hc : closes ("\n".intercalate (lines ++ [text])) = true) :
    ∃ next : Session, next.Holds [] ∧ SameSettings next.console s.console ∧
      s.step (.line text) = (next, (Report.without k ("\n".intercalate (lines ++ [text]))
        s.console.maxDepth s.console.layout).toOutput) := by
  have hscanner := h.scanner_feed text
  have htokens := h.tokens text
  generalize "\n".intercalate (lines ++ [text]) = joined at *
  have hclosed : (s.console.scanner.feed text.toList).scanner.closed = true := by
    rw [hscanner]
    exact hc
  have hoffset : (s.console.scanner.feed text.toList).scanner.finish.scanner.offset =
      joined.length := by
    rw [offset_finish, hscanner, offset_feed (fault_feed_new joined.toList)]
    exact Nat.zero_add _
  have hs : ∀ t ∈ (tokenize joined).drop k, t.WellSpelled :=
    fun t ht => tokenize_wellSpelled joined t (List.mem_of_mem_drop ht)
  have hreport : reportOn ((tokenize joined).drop k) joined.length s.console.maxDepth
      s.console.layout = Report.without k joined s.console.maxDepth s.console.layout :=
    reportOn_eq s.console.limit_pos _ _ _
  have hstep := step_of_closed hclosed htokens hoffset hs
  rw [hreport] at hstep
  refine ⟨_, ?_, ?_, hstep⟩
  · exact ⟨rfl, rfl⟩
  · exact ⟨rfl, rfl, rfl⟩

theorem Lacks.step_continued (hc : closes ("\n".intercalate (lines ++ [text])) = false) :
    ∃ next : Session, next.Lacks k (lines ++ [text]) ∧ SameSettings next.console s.console ∧
      s.step (.line text) = (next, .empty) := by
  have hopen : (s.console.scanner.feed text.toList).scanner.closed = false := by
    rw [h.scanner_feed text]
    exact hc
  have hsettings := sameSettings_step s (.line text)
  have hcompleted := completed_snoc lines text
  simp only [← h.scanner] at hcompleted
  simp only [step, hopen, Bool.false_eq_true, if_false] at hsettings ⊢
  refine ⟨_, ⟨?_, ?_, ?_⟩, hsettings, rfl⟩
  · rw [scanner_entered_snoc, ← h.scanner]
  · rw [hcompleted, List.drop_append_of_le_length h.le, ← h.buffer]
    exact List.append_assoc _ _ _
  · rw [hcompleted, List.length_append]
    exact Nat.le_add_right_of_le h.le

end Lacks

theorem Holds.printed_run (h : s.Holds lines) (printed : Output) (events : List Event) :
    (s.run printed events).1.map Exchange.printed = printed ::
      (reactions lines events).map (·.printed s.console.maxDepth s.console.layout) := by
  rw [(run_eq h printed events).1, List.map_cons, List.map_map]
  rfl

/-- A session that lacks tokens prints as if the command under entry did not have them. With the
first command to be completed or dropped it holds all that is entered, and the commands that follow
lack nothing. -/
theorem Lacks.printed_run (h : s.Lacks k lines) (printed : Output) (events : List Event) :
    (s.run printed events).1.map Exchange.printed = printed ::
      printedWithout k s.console.maxDepth s.console.layout (reactions lines events) := by
  induction events generalizing s lines printed with
  | nil => rfl
  | cons e events ih =>
      cases e with
      | interrupt =>
          have hnext : (start s.console.reset).Holds [] := ⟨rfl, rfl⟩
          exact congrArg (printed :: ·) (hnext.printed_run _ events)
      | line text =>
          simp only [reactions, react]
          split
          · next hc =>
            obtain ⟨next, hnext, hsettings, hstep⟩ := h.step_complete text hc
            have hraised := Report.raised_without s.console.one_le_maxDepth k
              ("\n".intercalate (lines ++ [text])) s.console.layout
            rw [run_cons hstep hraised, List.map_cons, hnext.printed_run, hsettings.maxDepth,
              hsettings.layout]
            rfl
          · next hc =>
            obtain ⟨next, hnext, hsettings, hstep⟩ :=
              h.step_continued text (Bool.not_eq_true _ ▸ hc)
            rw [run_cons hstep rfl, List.map_cons, ih hnext, hsettings.maxDepth, hsettings.layout]
            rfl

/-- A run leaves the scanner of what has been entered of a command by its end. -/
theorem Holds.scanner_run (h : s.Holds lines) (printed : Output) (events : List Event) :
    (s.run printed events).2.scanner =
      (Scanner.new.feed (entered (unfinished lines events))).scanner := by
  induction events generalizing s lines printed with
  | nil => exact h.scanner
  | cons e events ih =>
      obtain ⟨next, hstep, hnext, _⟩ := step_react h e
      rw [run_cons hstep (Reaction.raised_printed s.console.one_le_maxDepth _ _)]
      exact ih hnext _

end Session

theorem answers_eq_run {c : Console} (hquit : c.quit = false) (events : List Event) :
    c.answers events =
      (((Session.start c).run .empty events).1.map Exchange.printed).tail := by
  rw [answers, loop, hquit, List.map_tail]
  rfl

section Loops
variable {d : Int} {layout : Layout} {c : Console} (h : new d layout = .ok c)
include h

theorem answers_of_new (events : List Event) :
    c.answers events = (reactions [] events).map (·.printed d layout) := by
  obtain ⟨hdepth, hlayout, hscanner, hquit⟩ := of_new h
  rw [answers_eq_run hquit, (Session.holds_start hscanner).printed_run, List.tail_cons]
  simp only [Session.start, hdepth, hlayout]

theorem answers_continued (first second : List Event) :
    (c.answers (first ++ second)).drop first.length =
      (reactions (unfinished [] first) second).map (·.printed d layout) := by
  rw [answers_of_new h, reactions_append, List.map_append]
  exact List.drop_left' (by rw [List.length_map, length_reactions])

/-- A second loop lacks the tokens that the first one has completed of its unfinished command. -/
theorem answers_resumed (first second : List Event) :
    (c.loop first).2.answers second =
      printedWithout (completed (unfinished [] first)).length d layout
        (reactions (unfinished [] first) second) := by
  obtain ⟨hdepth, hlayout, hscanner, hquit⟩ := of_new h
  have hloop : (c.loop first).2 = ((Session.start c).run .empty first).2 := by
    rw [loop, hquit]
    rfl
  have hsettings : SameSettings (c.loop first).2 c := sameSettings_act c (.loop first)
  have hlacks : (Session.start (c.loop first).2).Lacks
      (completed (unfinished [] first)).length (unfinished [] first) := by
    refine ⟨?_, List.drop_length.symm, Nat.le_refl _⟩
    have hlast := (Session.holds_start hscanner).scanner_run .empty first
    rwa [← hloop] at hlast
  have hresumed : (c.loop first).2.quit = false := hsettings.quit.trans hquit
  rw [answers_eq_run hresumed, hlacks.printed_run, List.tail_cons]
  simp only [Session.start, hsettings.maxDepth, hsettings.layout, hdepth, hlayout]

end Loops

end Console
end ShellGrammar
