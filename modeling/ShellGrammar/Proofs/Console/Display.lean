import ShellGrammar.Console
import ShellGrammar.Proofs.Lexing.Agreement
import ShellGrammar.Proofs.Reading.Outcome

/-!
What a console shows of tokens depends on its settings alone, whatever its cursor was used for
before. The limit of a console is positive and the end of what it reads is known, so syntax errors
are all that can go wrong with tokens whose texts suit their kinds, and no failure is raised. The
tokens of a text are shown as the text is when it is given at once.
-/
namespace ShellGrammar

namespace Report
variable {d : Int} {layout : Layout}

/-- A line and a syntax error are reported. -/
theorem raised_ofResult {count : Nat} {result : Except Failure Line}
    (h : (∃ l, result = .ok l) ∨ ∃ e, result = .error (.rejected e)) :
    (ofResult count result layout).raised = none := by
  rcases h with ⟨l, rfl⟩ | ⟨e, rfl⟩ <;> rfl

theorem raised_ofTokens {ts : List Token} {count : Nat} {endPosition : Option Int}
    (hs : ∀ t ∈ ts, t.WellSpelled) (hd : 1 ≤ d) :
    (ofResult count (Line.ofTokens ts d endPosition) layout).raised = none := by
  refine raised_ofResult ?_
  cases Line.ofTokens_ok_or_rejected hs hd endPosition with
  | inl hread =>
      obtain ⟨l, hl, _⟩ := hread
      exact .inl ⟨l, hl⟩
  | inr hrejected => exact .inr hrejected

theorem raised_ofText (hd : 1 ≤ d) (text : String) : (ofText text d layout).raised = none :=
  raised_ofTokens (tokenize_wellSpelled text) hd

end Report

namespace Console

theorem one_le_maxDepth (c : Console) : 1 ≤ (c.maxDepth : Int) := Int.ofNat_le.mpr c.limit_pos

/-- What is reported on tokens that a cursor has not begun to read. -/
def reportOn (tokens : List Token) (endPosition : Int) (maxDepth : Nat) (layout : Layout) :
    Report :=
  Report.ofResult tokens.length (Cursor.parse ⟨tokens, maxDepth, some endPosition, 0, 0⟩).1 layout

theorem reportOn_eq {maxDepth : Nat} (h : 0 < maxDepth) (tokens : List Token) (endPosition : Int)
    (layout : Layout) : reportOn tokens endPosition maxDepth layout =
      Report.ofResult tokens.length (Line.ofTokens tokens maxDepth (some endPosition)) layout := by
  have hd : 1 ≤ (maxDepth : Int) := Int.ofNat_le.mpr h
  rw [reportOn, Line.ofTokens_eq hd, Int.toNat_natCast]

theorem reportOn_tokenize {maxDepth : Nat} (h : 0 < maxDepth) (text : String) (layout : Layout) :
    reportOn (tokenize text) text.length maxDepth layout = Report.ofText text maxDepth layout :=
  reportOn_eq h _ _ _

theorem raised_reportOn {tokens : List Token} (hs : ∀ t ∈ tokens, t.WellSpelled) {maxDepth : Nat}
    (h : 0 < maxDepth) (endPosition : Int) (layout : Layout) :
    (reportOn tokens endPosition maxDepth layout).raised = none := by
  rw [reportOn_eq h]
  exact Report.raised_ofTokens hs (Int.ofNat_le.mpr h)

/-- The report on the tokens depends on the settings of the console alone. -/
theorem display_eq (c : Console) (tokens : List Token) (endPosition : Int) :
    c.display tokens endPosition =
      let report := reportOn tokens endPosition c.maxDepth c.layout
      let exitCode := if report.raised.isSome then c.exitCode else report.status
      ({ c with cursor := c.cursor.resetState, exitCode }, report.toOutput) := by
  simp only [display, Cursor.resetState_parse]
  rfl

theorem display_of_wellSpelled (c : Console) {tokens : List Token}
    (hs : ∀ t ∈ tokens, t.WellSpelled) (endPosition : Int) :
    c.display tokens endPosition =
      let report := reportOn tokens endPosition c.maxDepth c.layout
      ({ c with cursor := c.cursor.resetState, exitCode := report.status }, report.toOutput) := by
  have hraised : (reportOn tokens endPosition c.maxDepth c.layout).raised = none :=
    raised_reportOn hs c.limit_pos endPosition c.layout
  simp only [display_eq, hraised, Option.isSome_none, Bool.false_eq_true, if_false]

/-- The tokens of a text are shown as the text is when it is given at once. -/
theorem display_tokenize (c : Console) (text : String) :
    c.display (tokenize text) text.length =
      let report := Report.ofText text c.maxDepth c.layout
      ({ c with cursor := c.cursor.resetState, exitCode := report.status }, report.toOutput) := by
  have hreport : reportOn (tokenize text) text.length c.maxDepth c.layout =
      Report.ofText text c.maxDepth c.layout := reportOn_tokenize c.limit_pos text c.layout
  simp only [c.display_of_wellSpelled (tokenize_wellSpelled text), hreport]

end Console
end ShellGrammar
