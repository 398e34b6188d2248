import ShellGrammar.Reader.Line

/-!
How far a line has come after some of its tokens. What matters of them is the phase, that is what
the last tokens were, and the number of subshells that are open: a stack of open productions would
hold nothing else. One token moves a progress on or is refused with the fault that explains it;
the refusals at the end of the line are the demands that are still open. A greater limit refuses
nothing that a smaller one lets pass, and what is refused for another reason than the limit is
refused by all limits. Whatever has been let pass can be completed to a line.
-/
namespace ShellGrammar

inductive Progress.Phase
  /-- A stage must come, at the beginning of the line or after an operator. -/
  | start
  /-- A stage must come, right after a left parenthesis. -/
  | opened
  /-- A command has begun. -/
  | command
  /-- The target of a redirection must come. -/
  | target
  /-- A subshell has just ended. -/
  | closed
  deriving DecidableEq, Repr

structure Progress where
  phase : Progress.Phase
  depth : Nat
  deriving DecidableEq, Repr

namespace Progress
open Reader (Fault)

/-- Nothing has been read. -/
def init : Progress := ⟨.start, 0⟩

/-- The token that a stage begins with; `limit` subshells may be open at once. -/
def enter (limit depth : Nat) : Token.Kind → Except Fault Progress
  | .word => .ok ⟨.command, depth⟩
  | .redirIn | .redirOut | .redirAppend | .heredoc => .ok ⟨.target, depth⟩
  | .lparen => if depth < limit then .ok ⟨.opened, depth + 1⟩ else .error .nestingTooDeep
  | _ => .error .noCommand

/-- The token after a complete stage. -/
def leave : (depth : Nat) → Token.Kind → Except Fault Progress
  | depth, .pipe | depth, .andAnd | depth, .orOr => .ok ⟨.start, depth⟩
  | depth + 1, .rparen => .ok ⟨.closed, depth⟩
  | _ + 1, _ => .error (.unmet [.rparen])
  | 0, _ => .error .trailingInput

def step (limit : Nat) : Progress → Token.Kind → Except Fault Progress
  | ⟨.start, depth⟩, k => enter limit depth k
  | ⟨.opened, depth⟩, k => if k = .rparen then .error .emptyGroup else enter limit depth k
  | ⟨.command, depth⟩, k => if k ∈ Reader.partKinds then enter limit depth k else leave depth k
  | ⟨.target, depth⟩, k => if k = .word then .ok ⟨.command, depth⟩ else .error (.unmet [.word])
  | ⟨.closed, depth⟩, k => leave depth k

/-- A token that is let pass has begun or continued a command, opened a subshell, or followed a
complete stage. -/
theorem enter_or_leave {limit : Nat} {p q : Progress} {k : Token.Kind}
    (h : p.step limit k = .ok q) :
    enter limit p.depth k = .ok q ∨ leave p.depth k = .ok q := by
  obtain ⟨phase, depth⟩ := p
  cases phase with
  | start => exact .inl h
  | closed => exact .inr h
  | opened =>
      simp only [step] at h
      split at h
      · cases h
      · exact .inl h
  | command =>
      simp only [step] at h
      split at h
      · exact .inl h
      · exact .inr h
  | target =>
      simp only [step] at h
      split at h
      · next hk =>
        subst hk
        exact .inl h
      · cases h

/-- What the end of the line is refused with, if it is. -/
def demand? : Progress → Option Fault
  | ⟨.start, _⟩ | ⟨.opened, _⟩ => some .noCommand
  | ⟨.target, _⟩ => some (.unmet [.word])
  | ⟨_, 0⟩ => none
  | ⟨_, _ + 1⟩ => some (.unmet [.rparen])

/-- The progress refuses what is left of the line at once. -/
def Refuses (limit : Nat) (p : Progress) (f : Fault) : List Token → Prop
  | [] => p.demand? = some f
  | t :: _ => p.step limit t.kind = .error f

def run (limit : Nat) : Progress → List Token → Except Fault Progress
  | p, [] => .ok p
  | p, t :: ts =>
    match p.step limit t.kind with
    | .ok q => run limit q ts
    | .error f => .error f

/-- The line may end after these tokens. -/
def Accepts (limit : Nat) (ts : List Token) : Prop :=
  ∃ p, run limit init ts = .ok p ∧ p.demand? = none

theorem run_append {limit : Nat} {p q : Progress} {ts : List Token}
    (h : run limit p ts = .ok q) (us : List Token) : run limit p (ts ++ us) = run limit q us := by
  induction ts generalizing p with
  | nil =>
      cases h
      rfl
  | cons t ts ih =>
      rw [run] at h
      rw [List.cons_append, run]
      split at h
      · next ht => exact ih h
      · cases h

theorem run_snoc {limit : Nat} {p q r : Progress} {ts : List Token} {t : Token}
    (h : run limit p ts = .ok q) (ht : q.step limit t.kind = .ok r) :
    run limit p (ts ++ [t]) = .ok r := by
  rw [run_append h, run, ht]
  rfl

/-- Nothing that begins with a refused token can be run. -/
theorem run_refused {limit : Nat} {p q : Progress} {f : Fault} {ts us : List Token} {t : Token}
    (h : run limit p ts = .ok q) (ht : q.step limit t.kind = .error f) :
    run limit p (ts ++ t :: us) = .error f := by
  rw [run_append h, run, ht]

/-- A line that is refused somewhere is not accepted. -/
theorem not_accepts_of_refuses {limit : Nat} {p : Progress} {f : Fault} {ts rest : List Token}
    (h : run limit init ts = .ok p) (hf : p.Refuses limit f rest) :
    ¬ Accepts limit (ts ++ rest) := by
  rintro ⟨q, hq, hd⟩
  cases rest with
  | nil =>
      rw [List.append_nil, h] at hq
      cases hq
      rw [Refuses, hd] at hf
      cases hf
  | cons t rest =>
      rw [run_refused h hf] at hq
      cases hq

section Limit
variable {m n depth : Nat} {p q : Progress} {k : Token.Kind} {f : Fault}

theorem enter_of_le (hmn : m ≤ n) (h : enter m depth k = .ok q) : enter n depth k = .ok q := by
  cases k with
  | lparen =>
      simp only [enter] at h ⊢
      split at h
      · rw [if_pos (by omega)]
        exact h
      · cases h
  | _ => exact h

theorem enter_error_congr (hf : f ≠ .nestingTooDeep) (h : enter m depth k = .error f) :
    enter n depth k = .error f := by
  cases k with
  | lparen =>
      simp only [enter] at h
      split at h
      · cases h
      · cases h
        exact absurd rfl hf
  | _ => exact h

theorem step_of_le (hmn : m ≤ n) (h : p.step m k = .ok q) : p.step n k = .ok q := by
  obtain ⟨phase, depth⟩ := p
  cases phase with
  | start => exact enter_of_le hmn h
  | target | closed => exact h
  | opened =>
      simp only [step] at h ⊢
      by_cases hk : k = .rparen
      · rw [if_pos hk] at h
        cases h
      · rw [if_neg hk] at h ⊢
        exact enter_of_le hmn h
  | command =>
      simp only [step] at h ⊢
      by_cases hk : k ∈ Reader.partKinds
      · rw [if_pos hk] at h ⊢
        exact enter_of_le hmn h
      · rwa [if_neg hk] at h ⊢

theorem step_error_congr (hf : f ≠ .nestingTooDeep) (h : p.step m k = .error f) :
    p.step n k = .error f := by
  obtain ⟨phase, depth⟩ := p
  cases phase with
  | start => exact enter_error_congr hf h
  | target | closed => exact h
  | opened =>
      simp only [step] at h ⊢
      by_cases hk : k = .rparen
      · rwa [if_pos hk] at h ⊢
      · rw [if_neg hk] at h ⊢
        exact enter_error_congr hf h
  | command =>
      simp only [step] at h ⊢
      by_cases hk : k ∈ Reader.partKinds
      · rw [if_pos hk] at h ⊢
        exact enter_error_congr hf h
      · rwa [if_neg hk] at h ⊢

theorem run_of_le {ts : List Token} (hmn : m ≤ n) (h : run m p ts = .ok q) :
    run n p ts = .ok q := by
  induction ts generalizing p with
  | nil => exact h
  | cons t ts ih =>
      rw [run] at h ⊢
      split at h
      · next r hr =>
        rw [step_of_le hmn hr]
        exact ih h
      · cases h

theorem Refuses.congr {rest : List Token} (hf : f ≠ .nestingTooDeep) (h : p.Refuses m f rest) :
    p.Refuses n f rest := by
  cases rest with
  | nil => exact h
  | cons t rest => exact step_error_congr hf h

/-- A line that a greater limit accepts can only be refused for the limit. -/
theorem eq_nestingTooDeep_of_accepts {ts rest : List Token} (hmn : m ≤ n)
    (ha : Accepts n (ts ++ rest)) (h : run m init ts = .ok p) (hf : p.Refuses m f rest) :
    f = .nestingTooDeep :=
  Decidable.of_not_not fun hne =>
    not_accepts_of_refuses (run_of_le hmn h) (hf.congr hne) ha

end Limit

/-- A right parenthesis for every open subshell. -/
def closers (depth : Nat) : List Token := List.replicate depth ⟨")", .rparen, 0⟩

/-- Tokens after which the line may end. -/
def completion : Progress → List Token
  | ⟨.command, depth⟩ | ⟨.closed, depth⟩ => closers depth
  | ⟨_, depth⟩ => ⟨"", .word, 0⟩ :: closers depth

theorem run_closers (limit : Nat) {p : Progress} (h : p.phase = .command ∨ p.phase = .closed) :
    ∃ q, run limit p (closers p.depth) = .ok q ∧ q.demand? = none := by
  obtain ⟨phase, depth⟩ := p
  induction depth generalizing phase with
  | zero => rcases h with rfl | rfl <;> exact ⟨_, rfl, rfl⟩
  | succ depth ih =>
      obtain ⟨q, hq, hd⟩ := ih .closed (.inr rfl)
      refine ⟨q, ?_, hd⟩
      rcases h with rfl | rfl <;> exact hq

theorem run_completion (limit : Nat) (p : Progress) :
    ∃ q, run limit p p.completion = .ok q ∧ q.demand? = none := by
  obtain ⟨phase, depth⟩ := p
  have hc := run_closers limit (p := ⟨.command, depth⟩) (.inl rfl)
  cases phase with
  | command => exact hc
  | closed => exact run_closers limit (.inr rfl)
  | start | opened | target => exact hc

theorem completion_wellSpelled (p : Progress) : ∀ t ∈ p.completion, t.WellSpelled := by
  have hc : ∀ t ∈ closers p.depth, t.WellSpelled := by
    intro t ht s hs
    rw [List.eq_of_mem_replicate ht] at hs ⊢
    cases hs
    rfl
  obtain ⟨phase, depth⟩ := p
  cases phase with
  | command | closed => exact hc
  | start | opened | target =>
      intro t ht
      rcases List.mem_cons.mp ht with rfl | ht
      · intro s hs
        cases hs
      · exact hc t ht

/-- Whatever has been read without a refusal can be completed to a line. -/
theorem accepts_completion {limit : Nat} {p : Progress} {ts : List Token}
    (h : run limit init ts = .ok p) : Accepts limit (ts ++ p.completion) := by
  obtain ⟨q, hq, hd⟩ := run_completion limit p
  exact ⟨q, by rw [run_append h, hq], hd⟩

end Progress
end ShellGrammar
