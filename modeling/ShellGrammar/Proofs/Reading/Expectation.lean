import ShellGrammar.Proofs.Reading.ErrorKind

/-!
The kinds that an error names as expected. Each progress has its due: a stage, the target of a
redirection, the right parenthesis of a subshell, or nothing. Every kind that is due lets the line
go on, a left parenthesis if the limit leaves room for it. What an error names is what is due where
the line was refused, or the word alone where the limit forbids a subshell.
-/
namespace ShellGrammar
open Reader Progress

/-- The kinds that an error names for the fault. -/
def Reader.Fault.expected : Fault → List Token.Kind
  | .unmet kinds => kinds
  | .noCommand | .emptyGroup => stageKinds
  | .nestingTooDeep => [.word]
  | .trailingInput => []

theorem Cursor.report_expected (c : Cursor) (f : Fault) : (c.report f).2.1 = f.expected := by
  cases f with
  | unmet kinds =>
      rw [report]
      split <;> rfl
  | noCommand | emptyGroup | nestingTooDeep | trailingInput => rfl

theorem SyntaxError.Locates.expected {e : SyntaxError} {limit : Nat} {taken rest : List Token}
    {f : Fault} (h : e.Locates limit taken rest f) : e.expected = f.expected := by
  obtain ⟨c, _, _, hreport⟩ := h.report
  rw [← c.report_expected f, hreport]

namespace Progress
variable {limit : Nat} {p : Progress} {k : Token.Kind} {f : Fault} {rest : List Token}

/-- The kinds one of which must still come; an operator may follow a stage, but need not. -/
def due : Progress → List Token.Kind
  | ⟨.start, _⟩ | ⟨.opened, _⟩ => stageKinds
  | ⟨.target, _⟩ => [.word]
  | ⟨.command, 0⟩ | ⟨.closed, 0⟩ => []
  | ⟨.command, _ + 1⟩ | ⟨.closed, _ + 1⟩ => [.rparen]

theorem demand?_of_due_eq_nil (h : p.due = []) : p.demand? = none := by
  obtain ⟨phase, depth⟩ := p
  cases phase with
  | start | opened | target => cases h
  | command | closed =>
      cases depth with
      | zero => rfl
      | succ depth => cases h

theorem exists_enter {depth : Nat} (hk : k ∈ stageKinds) (hl : k = .lparen → depth < limit) :
    ∃ q, enter limit depth k = .ok q := by
  cases k with
  | word | redirIn | redirOut | redirAppend | heredoc => exact ⟨_, rfl⟩
  | lparen => exact ⟨_, if_pos (hl rfl)⟩
  | rparen | andAnd | orOr | pipe => exact absurd hk (by decide)

/-- What is due lets the line go on. -/
theorem exists_step_of_mem_due (hk : k ∈ p.due) (hl : k = .lparen → p.depth < limit) :
    ∃ q, p.step limit k = .ok q := by
  obtain ⟨phase, depth⟩ := p
  cases phase with
  | start => exact exists_enter hk hl
  | opened =>
      have hstage : k ∈ stageKinds := hk
      have hr : k ≠ .rparen := fun h => absurd (h ▸ hstage) (by decide)
      rw [step, if_neg hr]
      exact exists_enter hk hl
  | target => exact ⟨_, if_pos (List.mem_singleton.mp hk)⟩
  | command | closed =>
      cases depth with
      | zero => cases hk
      | succ depth =>
          cases List.mem_singleton.mp hk
          exact ⟨_, rfl⟩

theorem Refused.expected (h : Refused limit p k f) :
    f.expected = p.due ∨ f.expected = [.word] ∧ p.due = stageKinds := by
  cases h with
  | emptyGroup | noTarget => exact .inl rfl
  | nestingTooDeep hp =>
      refine .inr ⟨rfl, ?_⟩
      cases hp with
      | inl hp | inr hp => rw [hp, due]
  | noCommand hp =>
      refine .inl ?_
      cases hp with
      | inl hp => rw [hp, due, Fault.expected]
      | inr hp => rw [hp.1, due, Fault.expected]
  | trailing hp | unclosed hp =>
      refine .inl ?_
      cases hp with
      | inl hp | inr hp => rw [hp, due, Fault.expected]

/-- What is named where a line is refused is due there, all of it unless the limit is the reason. -/
theorem Refuses.expected (h : p.Refuses limit f rest) :
    f.expected = p.due ∨ f.expected = [.word] ∧ p.due = stageKinds := by
  cases rest with
  | cons t rest => exact (refused_of_step h).expected
  | nil =>
      obtain ⟨phase, depth⟩ := p
      cases phase with
      | start | opened | target =>
          cases h
          exact .inl rfl
      | command | closed =>
          cases depth <;> cases h
          exact .inl rfl

theorem Refuses.mem_due (h : p.Refuses limit f rest) (hk : k ∈ f.expected) : k ∈ p.due := by
  cases h.expected with
  | inl hdue => exact hdue ▸ hk
  | inr hword =>
      rw [hword.1, List.mem_singleton] at hk
      rw [hk, hword.2]
      decide

end Progress

namespace Line
variable {ts : List Token} {d : Int} {endPosition : Option Int}

/-- The tokens can be extended to a line of the grammar, however deep its subshells are nested. -/
def Extensible (ts : List Token) : Prop :=
  ∃ more, (∀ t ∈ more, t.WellSpelled) ∧ ∃ body : AndOr, body.Yields (ts ++ more)

theorem Viable.extensible (hs : ∀ t ∈ ts, t.WellSpelled) (h : Viable d ts) : Extensible ts := by
  obtain ⟨more, hmore, body, hbody⟩ := h
  have hyields : (Line.sequence body).Yields (ts ++ more) :=
    yields_of_ofTokens (List.forall_mem_append.mpr ⟨hs, hmore⟩) hbody
  exact ⟨more, hmore, body, hyields⟩

/-- An error that names no kinds comes behind a whole line. Otherwise a token of any kind that it
names can take the place of the one found: the line can then be completed, and within the limit
unless the kind is a left parenthesis. -/
theorem expected_of_rejected {e : SyntaxError} (hs : ∀ t ∈ ts, t.WellSpelled) (hd : 1 ≤ d)
    (h : ofTokens ts d endPosition = .error (.rejected e)) :
    ∃ i : Nat, e.index = i ∧ (e.expected = [] → Accepted d (ts.take i)) ∧
      ∀ t : Token, t.kind ∈ e.expected → t.WellSpelled →
        Extensible (ts.take i ++ [t]) ∧ (t.kind ≠ .lparen → Viable d (ts.take i ++ [t])) := by
  obtain ⟨taken, rest, f, rfl, hlocates⟩ := exists_locates_of_rejected hs hd h
  obtain ⟨p, hp, hf⟩ := hlocates.refused
  have htaken : ∀ t ∈ taken, t.WellSpelled := (List.forall_mem_append.mp hs).1
  rw [hlocates.expected]
  refine ⟨taken.length, hlocates.index, fun hnil => ?_, fun t hk ht => ?_⟩
  · have hdue : p.due = [] := by
      cases hf.expected with
      | inl hdue => rw [← hdue, hnil]
      | inr hword => rw [hword.1] at hnil; cases hnil
    rw [List.take_left, accepted_iff_accepts htaken hd, hp.accepts_iff]
    exact demand?_of_due_eq_nil hdue
  · have hsnoc : ∀ u ∈ taken ++ [t], u.WellSpelled :=
      List.forall_mem_append.mpr ⟨htaken, by simpa using ht⟩
    have hviable {n : Nat} (hn : d.toNat ≤ n) (hl : t.kind = .lparen → p.depth < n) :
        Viable n (taken ++ [t]) := by
      obtain ⟨q, hq⟩ := exists_step_of_mem_due (hf.mem_due hk) hl
      have hreached : Reached n (taken ++ [t]) q := run_snoc (run_of_le hn hp) hq
      exact viable_of_reached hsnoc (by omega) hreached
    rw [List.take_left]
    refine ⟨?_, fun hl => ?_⟩
    · have hroom : Viable _ (taken ++ [t]) :=
        hviable (Nat.le_max_left d.toNat (p.depth + 1)) fun _ => by omega
      exact hroom.extensible hsnoc
    · have hlimit : Viable d.toNat (taken ++ [t]) :=
        hviable (Nat.le_refl _) fun h => absurd h hl
      rwa [Int.toNat_of_nonneg (by omega)] at hlimit

/-- The empty group in `()`, with only one subshell allowed: another subshell or the operator of a
redirection may stand in it. Behind the word in `a)` nothing is expected. -/
theorem expected_of_rejected_group :
    Extensible [⟨"(", .lparen, 0⟩, ⟨"(", .lparen, 1⟩] ∧
      Viable 1 [⟨"(", .lparen, 0⟩, ⟨"<<", .heredoc, 1⟩] ∧ Accepted 1 [⟨"a", .word, 0⟩] := by
  have hempty : ofTokens [⟨"(", .lparen, 0⟩, ⟨")", .rparen, 1⟩] 1 none = .error (.rejected
      ⟨.emptyGroup, stageKinds, some ⟨")", .rparen, 1⟩, 1, 1, "empty subshell"⟩) := by
    with_unfolding_all rfl
  have htrailing : ofTokens [⟨"a", .word, 0⟩, ⟨")", .rparen, 1⟩] 1 none = .error (.rejected
      ⟨.trailingInput, [], some ⟨")", .rparen, 1⟩, 1, 1, "unexpected trailing input"⟩) := by
    with_unfolding_all rfl
  obtain ⟨i, hi, _, hexpected⟩ := expected_of_rejected (by decide) (by decide) hempty
  obtain ⟨j, hj, haccepted, _⟩ := expected_of_rejected (by decide) (by decide) htrailing
  cases (Int.ofNat.inj hi : 1 = i)
  cases (Int.ofNat.inj hj : 1 = j)
  exact ⟨(hexpected ⟨"(", .lparen, 1⟩ (by decide) (by decide)).1,
    (hexpected ⟨"<<", .heredoc, 1⟩ (by decide) (by decide)).2 (by decide), haccepted rfl⟩

end Line
end ShellGrammar
