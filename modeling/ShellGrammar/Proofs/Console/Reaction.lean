import ShellGrammar.Proofs.Console.Display
import ShellGrammar.Proofs.Lexing.Feeding

/-!
The console against the parsing of whole texts. What an event leads to depends only on the lines of
the command that is being entered: a line completes the command as soon as the lines, joined with
line feeds, leave no quote and no backslash open, and then the joined text is reported on as if it
had been given at once. A session keeps a scanner and tokens instead of the lines; both are those of
the text entered so far.
-/
namespace ShellGrammar.Console
open Scanner

/-- Nothing is left open at the end of the text. -/
def closes (text : String) : Bool := (Scanner.new.feed text.toList).scanner.closed

inductive Reaction
  /-- The line completes the command with this text. -/
  | complete (text : String)
  /-- The line leaves the command unfinished. -/
  | continued
  /-- What has been entered of the command is dropped. -/
  | dropped
  deriving DecidableEq, Repr

namespace Reaction

def report? (maxDepth : Int) (layout : Layout) : Reaction → Option Report
  | complete text => some (Report.ofText text maxDepth layout)
  | continued | dropped => none

def printed (maxDepth : Int) (layout : Layout) : Reaction → Output
  | complete text => (Report.ofText text maxDepth layout).toOutput
  | continued => .empty
  | dropped => { Output.empty with out := "\n" }

theorem raised_printed {maxDepth : Int} (h : 1 ≤ maxDepth) (layout : Layout) (r : Reaction) :
    (r.printed maxDepth layout).raised = none := by
  cases r with
  | complete text => exact Report.raised_ofText h text
  | continued | dropped => rfl

/-- The prompt that follows the reaction. -/
def prompt : Reaction → String
  | continued => continuationPrompt
  | complete _ | dropped => Console.prompt

end Reaction

/-- The reaction to an event and the lines of the unfinished command after it, given those before
it. -/
def react (lines : List String) : Event → Reaction × List String
  | .interrupt => (.dropped, [])
  | .line text =>
    let joined := "\n".intercalate (lines ++ [text])
    if closes joined then (.complete joined, []) else (.continued, lines ++ [text])

def reactions (lines : List String) : List Event → List Reaction
  | [] => []
  | e :: es => (react lines e).1 :: reactions (react lines e).2 es

/-- The characters that the scanner has been fed with the lines of an unfinished command. -/
def entered (lines : List String) : List Char := lines.flatMap fun line => line.toList ++ ['\n']

theorem entered_snoc (lines : List String) (line : String) :
    entered (lines ++ [line]) = entered lines ++ line.toList ++ ['\n'] := by
  simp [entered]

theorem toList_joined (lines : List String) (line : String) :
    ("\n".intercalate (lines ++ [line])).toList = entered lines ++ line.toList := by
  induction lines with
  | nil => simp [entered]
  | cons first lines ih =>
      have hcons : "\n".intercalate (first :: (lines ++ [line])) =
          first ++ "\n" ++ "\n".intercalate (lines ++ [line]) := by
        cases lines <;> exact String.intercalate_cons_cons
      rw [List.cons_append, hcons, String.toList_append, String.toList_append, ih]
      simp [entered]

namespace Session
variable {s : Session} {lines : List String}

/-- The scanner and the tokens are those of the characters entered of an unfinished command. -/
structure Holds (s : Session) (lines : List String) : Prop where
  scanner : s.console.scanner = (Scanner.new.feed (entered lines)).scanner
  buffer : s.buffer = (Scanner.new.feed (entered lines)).tokens

theorem holds_start {c : Console} (h : c.scanner = Scanner.new) : (start c).Holds [] :=
  ⟨h, rfl⟩

/-- More text of a command leaves the scanner, and completes the tokens, of the whole text. -/
theorem Holds.feed (h : s.Holds lines) (cs : List Char) :
    (Scanner.new.feed (entered lines ++ cs)).scanner = (s.console.scanner.feed cs).scanner ∧
      (Scanner.new.feed (entered lines ++ cs)).tokens =
        s.buffer ++ (s.console.scanner.feed cs).tokens := by
  rw [feed_append (fault_feed_new (entered lines)), ← h.scanner, ← h.buffer]
  exact ⟨rfl, rfl⟩

/-- A line that leaves nothing open has the tokens of the command shown, and a new one begins. -/
theorem step_of_closed {text : String} {tokens : List Token} {n : Nat}
    (hclosed : (s.console.scanner.feed text.toList).scanner.closed = true)
    (htokens : s.buffer ++ (s.console.scanner.feed text.toList).tokens ++
      (s.console.scanner.feed text.toList).scanner.finish.tokens = tokens)
    (hoffset : (s.console.scanner.feed text.toList).scanner.finish.scanner.offset = n)
    (hs : ∀ t ∈ tokens, t.WellSpelled) :
    s.step (.line text) =
      let report := reportOn tokens n s.console.maxDepth s.console.layout
      let cursor := s.console.cursor.resetState
      (start { s.console with cursor, scanner := .new, exitCode := report.status },
        report.toOutput) := by
  have hraised : (reportOn tokens n s.console.maxDepth s.console.layout).raised = none :=
    raised_reportOn hs s.console.limit_pos n s.console.layout
  simp only [step, hclosed, if_true, htokens, hoffset, display_of_wellSpelled _ hs]
  exact Prod.ext (if_neg (Option.not_isSome_iff_eq_none.mpr hraised)) rfl

theorem step_complete {text : String} (h : s.Holds lines)
    (hc : closes ("\n".intercalate (lines ++ [text])) = true) :
    s.step (.line text) =
      let report := Report.ofText ("\n".intercalate (lines ++ [text])) s.console.maxDepth
        s.console.layout
      let cursor := s.console.cursor.resetState
      (start { s.console with cursor, scanner := .new, exitCode := report.status },
        report.toOutput) := by
  obtain ⟨hscanner, hbuffer⟩ := h.feed text.toList
  rw [← toList_joined] at hscanner hbuffer
  generalize "\n".intercalate (lines ++ [text]) = joined at *
  have hclosed : (s.console.scanner.feed text.toList).scanner.closed = true := by
    rw [← hscanner]
    exact hc
  have htokens : s.buffer ++ (s.console.scanner.feed text.toList).tokens ++
      (s.console.scanner.feed text.toList).scanner.finish.tokens = tokenize joined := by
    rw [← hbuffer, ← hscanner]
    rfl
  have hoffset : (s.console.scanner.feed text.toList).scanner.finish.scanner.offset =
      joined.length := by
    rw [offset_finish, ← hscanner, offset_feed (fault_feed_new joined.toList)]
    exact Nat.zero_add _
  have hreport : reportOn (tokenize joined) joined.length s.console.maxDepth s.console.layout =
      Report.ofText joined s.console.maxDepth s.console.layout :=
    reportOn_tokenize s.console.limit_pos joined s.console.layout
  rw [step_of_closed hclosed htokens hoffset (tokenize_wellSpelled joined), hreport]

theorem step_continued {text : String} (h : s.Holds lines)
    (hc : closes ("\n".intercalate (lines ++ [text])) = false) :
    s.step (.line text) =
      let more := Scanner.new.feed (entered (lines ++ [text]))
      (⟨{ s.console with scanner := more.scanner }, more.tokens, true⟩, .empty) := by
  obtain ⟨hscanner, hbuffer⟩ := h.feed text.toList
  have hopen : (s.console.scanner.feed text.toList).scanner.closed = false := by
    rw [← hscanner, ← toList_joined]
    exact hc
  have hmore := feed_append (fault_feed_new (entered lines ++ text.toList)) ['\n']
  rw [hscanner, hbuffer] at hmore
  simp only [step, hopen, Bool.false_eq_true, if_false, entered_snoc, hmore]

/-- One event: the session prints the reaction to it, shows the prompt that follows the reaction,
and holds the lines that are left of the command. -/
theorem step_react (h : s.Holds lines) (e : Event) :
    ∃ next : Session,
      s.step e = (next, (react lines e).1.printed s.console.maxDepth s.console.layout) ∧
      next.Holds (react lines e).2 ∧ next.prompt = (react lines e).1.prompt ∧
      next.console.maxDepth = s.console.maxDepth ∧ next.console.layout = s.console.layout ∧
      next.console.exitCode = ((react lines e).1.report? s.console.maxDepth s.console.layout).elim
        s.console.exitCode Report.status := by
  cases e with
  | interrupt => exact ⟨start s.console.reset, rfl, ⟨rfl, rfl⟩, rfl, rfl, rfl, rfl⟩
  | line text =>
      simp only [react]
      split
      · next hc => exact ⟨_, step_complete h hc, ⟨rfl, rfl⟩, rfl, rfl, rfl, rfl⟩
      · next hc =>
        exact ⟨_, step_continued h (Bool.not_eq_true _ ▸ hc), ⟨rfl, rfl⟩, rfl, rfl, rfl, rfl⟩

theorem run_cons {next : Session} {e : Event} {output : Output} (hstep : s.step e = (next, output))
    (hraised : output.raised = none) (printed : Output) (events : List Event) :
    s.run printed (e :: events) =
      (⟨s.prompt, printed⟩ :: (next.run output events).1, (next.run output events).2) := by
  simp only [run, hstep, hraised, Option.isSome_none, Bool.false_eq_true, if_false]

theorem run_eq (h : s.Holds lines) (printed : Output) (events : List Event) :
    let maxDepth := s.console.maxDepth
    let layout := s.console.layout
    (s.run printed events).1 = ⟨s.prompt, printed⟩ ::
        (reactions lines events).map (fun r => ⟨r.prompt, r.printed maxDepth layout⟩) ∧
      (s.run printed events).2.exitCode =
        ((reactions lines events).filterMap (Reaction.report? maxDepth layout)).getLast?.elim
          s.console.exitCode Report.status := by
  induction events generalizing s lines printed with
  | nil => exact ⟨rfl, rfl⟩
  | cons e events ih =>
      obtain ⟨next, hstep, hnext, hprompt, hdepth, hlayout, hcode⟩ := step_react h e
      obtain ⟨hexchanges, hexit⟩ :=
        ih hnext ((react lines e).1.printed s.console.maxDepth s.console.layout)
      rw [hprompt, hdepth, hlayout] at hexchanges
      rw [hdepth, hlayout, hcode] at hexit
      rw [run_cons hstep (Reaction.raised_printed s.console.one_le_maxDepth _ _)]
      simp only [reactions, hexchanges, hexit, List.map_cons, List.filterMap_cons, true_and]
      cases (react lines e).1.report? s.console.maxDepth s.console.layout with
      | none => rfl
      | some report =>
          simp only [List.getLast?_cons, Option.elim_some]
          cases (List.filterMap _ _).getLast? <;> rfl

end Session

/-- From a console with nothing entered, the prompts, all that is printed and the exit code are
those of the reactions to the events: every completed command is reported on by itself, and the last
report gives the exit code, if there is any. -/
theorem loop_eq_reactions (c : Console) (events : List Event)
    (hs : c.scanner = .new ∨ ∃ s : Scanner, c.scanner = s.reset) (hq : c.quit = false) :
    let responses := reactions [] events
    (c.loop events).1 = ⟨prompt, .empty⟩ ::
        responses.map (fun r => ⟨r.prompt, r.printed c.maxDepth c.layout⟩) ∧
      (c.loop events).2.exitCode =
        (responses.filterMap (Reaction.report? c.maxDepth c.layout)).getLast?.elim c.exitCode
          Report.status := by
  have hnew : c.scanner = .new := hs.elim id fun ⟨s, h⟩ => h.trans s.reset_eq_new
  rw [loop, hq]
  exact Session.run_eq (Session.holds_start hnew) .empty events

/-- A command that is dropped, one of two lines, one that is rejected, and one without an end, with
a cursor that still stands behind other tokens. -/
theorem loop_eq_reactions_dropped :
    let c : Console :=
      ⟨⟨[⟨"x", .word, 3⟩], 128, none, 4, 1⟩, .text, .new, 7, false, by decide⟩
    let events : List Event :=
      [.line "a 'b", .interrupt, .line "x \\", .line "y", .line "(", .line "echo 'z"]
    (c.loop events).1.map Exchange.prompt =
        [prompt, continuationPrompt, prompt, continuationPrompt, prompt, prompt,
          continuationPrompt] ∧
      (c.loop events).1.map (·.printed.out) = ["", "", "\n", "", "x y\n", "", ""] ∧
      (c.loop events).2.exitCode = 1 := by
  intro c events
  obtain ⟨hexchanges, hcode⟩ := loop_eq_reactions c events (.inl rfl) rfl
  have hreactions : reactions [] events =
      [.continued, .dropped, .continued, .complete "x \\\ny", .complete "(", .continued] := by
    decide +kernel
  have hshown : Report.ofText "x \\\ny" 128 .text =
      ⟨⟨"x y\n", "", ["Parsed 2 tokens"], none⟩, 0⟩ := by decide +kernel
  have hfailed : (Report.ofText "(" 128 .text).status = 1 ∧
      (Report.ofText "(" 128 .text).out = "" := by decide +kernel
  have hmaxDepth : (c.maxDepth : Int) = 128 := rfl
  rw [hreactions, hmaxDepth] at hexchanges hcode
  refine ⟨?_, ?_, hcode.trans hfailed.1⟩
  · rw [hexchanges]
    rfl
  · rw [hexchanges]
    simp [Reaction.printed, hshown, hfailed, Output.empty, c]

end ShellGrammar.Console
