import ShellGrammar.Proofs.Console.Reaction

/-!
What a console keeps of the calls made to it. Two consoles that differ only in their cursors and
exit codes cannot be told apart by what they print, and they go on to differ in nothing else; the
cursor of a console is therefore no way from one command to the next. So `execute` prints what is
printed for the text alone, and what is being entered of a command goes on as if `execute` had not
been called.
-/
namespace ShellGrammar.Console

/-- What a console can be asked to do; a loop ends when there are no more events. -/
inductive Call
  | execute (text : String)
  | reset
  | loop (events : List Event)
  deriving DecidableEq, Repr

def act (c : Console) : Call → Console
  | .execute text => (c.execute text).1
  | .reset => c.reset
  | .loop events => (c.loop events).2

def after (c : Console) (calls : List Call) : Console := calls.foldl act c

/-- The settings of the one console are those of the other. -/
structure SameSettings (a b : Console) : Prop where
  maxDepth : a.maxDepth = b.maxDepth
  layout : a.layout = b.layout
  quit : a.quit = b.quit

/-- The consoles differ in their cursors at most, and in their exit codes as long as these are still
`m` and `n`. -/
structure Alike (m n : Nat) (a b : Console) : Prop extends SameSettings a b where
  scanner : a.scanner = b.scanner
  exitCode : a.exitCode = b.exitCode ∨ a.exitCode = m ∧ b.exitCode = n

variable {a b c : Console} {m n : Nat}

namespace SameSettings

theorem refl (c : Console) : SameSettings c c := ⟨rfl, rfl, rfl⟩

theorem trans (h : SameSettings a b) (h' : SameSettings b c) : SameSettings a c :=
  ⟨h.maxDepth.trans h'.maxDepth, h.layout.trans h'.layout, h.quit.trans h'.quit⟩

end SameSettings

theorem Alike.display (h : Alike m n a b) (tokens : List Token) (endPosition : Int) :
    (a.display tokens endPosition).2 = (b.display tokens endPosition).2 ∧
      Alike m n (a.display tokens endPosition).1 (b.display tokens endPosition).1 := by
  have hreport : reportOn tokens endPosition a.maxDepth a.layout =
      reportOn tokens endPosition b.maxDepth b.layout := by
    rw [h.maxDepth, h.layout]
  rw [display_eq, display_eq, hreport]
  refine ⟨rfl, ⟨h.maxDepth, h.layout, h.quit⟩, h.scanner, ?_⟩
  dsimp only
  split
  · exact h.exitCode
  · exact .inl rfl

theorem Alike.execute (h : Alike m n a b) (text : String) :
    Alike m n (a.execute text).1 (b.execute text).1 :=
  (h.display _ _).2

theorem Alike.reset (h : Alike m n a b) : Alike m n a.reset b.reset where
  maxDepth := h.maxDepth
  layout := h.layout
  quit := h.quit
  scanner := congrArg Scanner.reset h.scanner
  exitCode := h.exitCode

theorem sameSettings_reset (c : Console) : SameSettings c.reset c := ⟨rfl, rfl, rfl⟩

theorem sameSettings_display (c : Console) (tokens : List Token) (endPosition : Int) :
    SameSettings (c.display tokens endPosition).1 c := by
  rw [display_eq]
  exact ⟨rfl, rfl, rfl⟩

namespace Session
variable {s t : Session}

/-- The sessions differ at most as their consoles do. -/
structure Alike (m n : Nat) (s t : Session) : Prop where
  console : Console.Alike m n s.console t.console
  buffer : s.buffer = t.buffer
  continued : s.continued = t.continued

theorem alike_start (h : Console.Alike m n a b) : Alike m n (start a) (start b) :=
  ⟨h, rfl, rfl⟩

theorem Alike.step (h : Alike m n s t) (e : Event) :
    (s.step e).2 = (t.step e).2 ∧ Alike m n (s.step e).1 (t.step e).1 := by
  obtain ⟨hconsole, hbuffer, hcontinued⟩ := h
  have hscanner (u : Scanner) :
      Console.Alike m n { s.console with scanner := u } { t.console with scanner := u } :=
    ⟨⟨hconsole.maxDepth, hconsole.layout, hconsole.quit⟩, rfl, hconsole.exitCode⟩
  cases e with
  | interrupt => exact ⟨rfl, alike_start hconsole.reset⟩
  | line text =>
      simp only [Session.step, hconsole.scanner, hbuffer]
      split
      · obtain ⟨hprinted, hshown⟩ := (hscanner _).display _ _
        refine ⟨hprinted, ?_⟩
        rw [hprinted]
        split
        · exact ⟨hshown, rfl, hcontinued⟩
        · exact alike_start hshown.reset
      · exact ⟨rfl, hscanner _, rfl, rfl⟩

theorem Alike.run (h : Alike m n s t) (printed : Output) (events : List Event) :
    (s.run printed events).1 = (t.run printed events).1 ∧
      Console.Alike m n (s.run printed events).2 (t.run printed events).2 := by
  have hprompt {s t : Session} (h : Alike m n s t) : s.prompt = t.prompt := by
    rw [Session.prompt, Session.prompt, h.continued]
  induction events generalizing s t printed with
  | nil => exact ⟨by rw [Session.run, Session.run, hprompt h], h.console⟩
  | cons e events ih =>
      obtain ⟨hprinted, hnext⟩ := h.step e
      obtain ⟨hexchanges, hlast⟩ := ih hnext (s.step e).2
      simp only [Session.run, hprompt h, ← hprinted]
      split
      · exact ⟨rfl, hnext.console⟩
      · rw [hexchanges]
        exact ⟨rfl, hlast⟩

theorem sameSettings_step (s : Session) (e : Event) :
    SameSettings (s.step e).1.console s.console := by
  cases e with
  | interrupt => exact sameSettings_reset s.console
  | line text =>
      have hshown (tokens : List Token) (endPosition : Int) (u : Scanner) :
          SameSettings (Console.display { s.console with scanner := u } tokens endPosition).1
            s.console :=
        (sameSettings_display _ _ _).trans ⟨rfl, rfl, rfl⟩
      simp only [step]
      split
      · split
        · exact hshown _ _ _
        · exact (sameSettings_reset _).trans (hshown _ _ _)
      · exact ⟨rfl, rfl, rfl⟩

theorem sameSettings_run (s : Session) (printed : Output) (events : List Event) :
    SameSettings (s.run printed events).2 s.console := by
  induction events generalizing s printed with
  | nil => exact .refl s.console
  | cons e events ih =>
      simp only [run]
      split
      · exact sameSettings_step s e
      · exact (ih (s.step e).1 (s.step e).2).trans (sameSettings_step s e)

end Session

theorem Alike.loop (h : Alike m n a b) (events : List Event) :
    (a.loop events).1 = (b.loop events).1 ∧ Alike m n (a.loop events).2 (b.loop events).2 := by
  simp only [Console.loop, h.quit]
  split
  · exact ⟨rfl, h⟩
  · exact (Session.alike_start h).run .empty events

theorem Alike.after (h : Alike m n a b) (calls : List Call) :
    Alike m n (a.after calls) (b.after calls) := by
  induction calls generalizing a b with
  | nil => exact h
  | cons call calls ih =>
      refine ih ?_
      cases call with
      | execute text => exact h.execute text
      | reset => exact h.reset
      | loop events => exact (h.loop events).2

theorem sameSettings_act (c : Console) (call : Call) : SameSettings (c.act call) c := by
  cases call with
  | execute text => exact sameSettings_display c _ _
  | reset => exact sameSettings_reset c
  | loop events =>
      simp only [act, loop]
      split
      · exact .refl c
      · exact Session.sameSettings_run (Session.start c) .empty events

theorem sameSettings_after (c : Console) (calls : List Call) :
    SameSettings (c.after calls) c := by
  induction calls generalizing c with
  | nil => exact .refl c
  | cons call calls ih => exact (ih (c.act call)).trans (sameSettings_act c call)

theorem of_new {maxDepth : Int} {layout : Layout} (h : new maxDepth layout = .ok c) :
    (c.maxDepth : Int) = maxDepth ∧ c.layout = layout ∧ c.scanner = .new ∧ c.quit = false := by
  rw [new] at h
  split at h
  · next cursor hcursor =>
    cases h
    rw [Cursor.new] at hcursor
    split at hcursor
    · cases hcursor
    · cases hcursor
      exact ⟨Int.toNat_of_nonneg (by omega), rfl, rfl, rfl⟩
  · cases h

/-- After any calls, `execute` prints and reports what is made of the text alone under the settings
of the console, and leaves the scanner alone. What is called for later is answered as without it,
and the exit code it leaves stands as long as the one before it would have stood. -/
theorem execute_after_calls {maxDepth : Int} {layout : Layout} (h : new maxDepth layout = .ok c)
    (calls : List Call) (text : String) :
    let before := c.after calls
    let report := Report.ofText text maxDepth layout
    let executed := (before.execute text).1
    (before.execute text).2 = report.toOutput ∧ executed.exitCode = report.status ∧
      executed.scanner = before.scanner ∧
      ∀ later : List Call,
        (executed.after later).scanner = (before.after later).scanner ∧
        ((executed.after later).exitCode = (before.after later).exitCode ∨
          (executed.after later).exitCode = report.status ∧
            (before.after later).exitCode = before.exitCode) ∧
        ∀ events,
          ((executed.after later).loop events).1 = ((before.after later).loop events).1 := by
  intro before report executed
  obtain ⟨hdepth, hlayout, _, _⟩ := of_new h
  have hsettings : SameSettings before c := sameSettings_after c calls
  have hreport : Report.ofText text before.maxDepth before.layout = report := by
    rw [hsettings.maxDepth, hsettings.layout, hdepth, hlayout]
  have hexecute : before.execute text =
      ({ before with cursor := before.cursor.resetState, exitCode := report.status },
        report.toOutput) :=
    hreport ▸ display_tokenize before text
  have halike : Alike report.status before.exitCode executed before := by
    simp only [executed, hexecute]
    exact ⟨⟨rfl, rfl, rfl⟩, rfl, .inr ⟨rfl, rfl⟩⟩
  refine ⟨congrArg Prod.snd hexecute, congrArg (·.1.exitCode) hexecute, halike.scanner,
    fun later => ?_⟩
  have hlater := halike.after later
  exact ⟨hlater.scanner, hlater.exitCode, fun events => (hlater.loop events).1⟩

/-- After a text that is rejected, an interrupt, and an input that ends within a quotation. -/
theorem execute_after_calls_pending :
    let c : Console := ⟨⟨[], 1, none, 0, 0⟩, .text, .new, 0, false, by decide⟩
    let before := c.after [.execute "((a))", .loop [.line "a 'b", .interrupt, .line "echo 'c"]]
    let executed := (before.execute "x &&  y").1
    new 1 .text = .ok c ∧ before.exitCode = 1 ∧ before.scanner.inQuotes = true ∧
      (before.execute "x &&  y").2.out = "x && y\n" ∧ executed.exitCode = 0 ∧
      executed.scanner = before.scanner ∧
      (executed.loop [.line "d'"]).1 = (before.loop [.line "d'"]).1 := by
  intro c
  have hnew : new 1 .text = .ok c := rfl
  have hreport : Report.ofText "x &&  y" 1 .text =
      ⟨⟨"x && y\n", "", ["Parsed 3 tokens"], none⟩, 0⟩ := by decide +kernel
  have hexecute := execute_after_calls hnew
    [.execute "((a))", .loop [.line "a 'b", .interrupt, .line "echo 'c"]] "x &&  y"
  dsimp only at hexecute ⊢
  rw [hreport] at hexecute
  obtain ⟨hprinted, hcode, hscanner, hlater⟩ := hexecute
  exact ⟨hnew, by decide +kernel, by decide +kernel, congrArg Output.out hprinted, hcode, hscanner,
    (hlater []).2.2 [.line "d'"]⟩

end ShellGrammar.Console
