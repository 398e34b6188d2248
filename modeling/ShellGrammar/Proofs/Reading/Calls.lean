import ShellGrammar.Proofs.Reading.Orderly

/-!
Calls on a cursor. A failure leaves it where it happened, inside the subshells that were open there,
and the tokens may be replaced at any time, so that the cursor stands behind the last of them; yet
it never holds more open subshells than its limit allows, and each reader goes on from where it
stands in an orderly way.
-/
namespace ShellGrammar.Cursor
open Reader
variable {c : Cursor}

/-- The levels of the grammar that can be read on their own. -/
inductive Level
  | sequence
  | andOr
  | pipeline
  | stage
  | subshell
  | command
  | redirection
  deriving DecidableEq, Repr

/-- Reads a tree of the level as a node. -/
def readNode (c : Cursor) : Level → Except Failure Node × Cursor
  | .sequence => c.readAndOr.map (.map .sequence) id
  | .andOr => c.readAndOr.map (.map .andOr) id
  | .pipeline => c.readPipeline.map (.map .pipeline) id
  | .stage => c.readStage.map (.map Stage.node) id
  | .subshell => c.readSubshell.map (.map .subshell) id
  | .command => c.readCommand.map (.map .command) id
  | .redirection => c.readRedirection.map (.map .redirection) id

/-- What can be asked of a cursor; its tokens and the end of the input may be replaced. -/
inductive Call
  | parse
  | read (level : Level)
  | peek
  | accept (kinds : List Token.Kind)
  | advance
  | expect (kinds : List Token.Kind)
  | position
  | resetState
  | setTokens (tokens : List Token)
  | setEndPosition (endPosition : Option Int)
  deriving DecidableEq, Repr

/-- The cursor that a call leaves, also where the call fails. -/
def act (c : Cursor) : Call → Cursor
  | .parse => c.parse.2
  | .read level => (c.readNode level).2
  | .peek | .accept _ | .position => c
  | .advance => c.advance.2
  | .expect kinds => (c.expect kinds).2
  | .resetState => c.resetState
  | .setTokens tokens => { c with tokens }
  | .setEndPosition endPosition => { c with endPosition }

def after (c : Cursor) (calls : List Call) : Cursor := calls.foldl act c

/-- The subshells of the node may be nested where the cursor stands. -/
def Fits (c : Cursor) (node : Node) : Prop :=
  ∀ path, node.Path path → path.countP Node.isSubshell + c.depth ≤ c.maxDepth

theorem fits_of_nesting_le {node : Node} (hdepth : c.depth ≤ c.maxDepth)
    (h : node.nesting ≤ c.allowance) : c.Fits node := by
  intro path hpath
  have hcount := Nat.le_trans (Node.countP_path_le hpath) h
  rw [allowance] at hcount
  omega

theorem orderly_readNode (hdepth : c.depth ≤ c.maxDepth) (level : Level) :
    c.Orderly c.Fits (c.readNode level) := by
  have hfits {node : Node} (h : node.nesting ≤ c.allowance) := fits_of_nesting_le hdepth h
  cases level with
  | sequence | andOr =>
      exact (orderly_apply hdepth andOr_keeps andOr_takes).map fun _ h => hfits h
  | pipeline => exact (orderly_apply hdepth pipeline_keeps pipeline_takes).map fun _ h => hfits h
  | stage =>
      refine (orderly_apply hdepth stage_keeps stage_takes).map fun s h => hfits ?_
      rw [Node.nesting_stage]
      exact h
  | subshell =>
      exact (orderly_apply hdepth (subshell_keeps _) subshell_takes).map fun _ h => hfits h
  | command =>
      refine (orderly_apply hdepth command_keeps command_takes).map fun _ _ => hfits ?_
      exact Nat.zero_le _
  | redirection =>
      refine (orderly_apply hdepth redirection_keeps redirection_takes).map fun _ _ => hfits ?_
      exact Nat.zero_le _

theorem orderly_expect (hdepth : c.depth ≤ c.maxDepth) (kinds : List Token.Kind) :
    c.Orderly (fun t => t ∈ c.tokens ∧ t.kind ∈ kinds) (c.expect kinds) :=
  orderly_apply hdepth .expect expect_takes

/-- A call changes neither the limit nor that the open subshells are within it. -/
theorem limit_act (hdepth : c.depth ≤ c.maxDepth) (call : Call) :
    (c.act call).maxDepth = c.maxDepth ∧ (c.act call).depth ≤ c.maxDepth := by
  cases call with
  | parse => exact ⟨maxDepth_apply, depth_apply_le line_keeps (Nat.zero_le _)⟩
  | read level =>
      have hread := orderly_readNode hdepth level
      exact ⟨hread.maxDepth, hread.depth⟩
  | expect kinds =>
      have hexpect := orderly_expect hdepth kinds
      exact ⟨hexpect.maxDepth, hexpect.depth⟩
  | advance =>
      rw [act, advance]
      split <;> exact ⟨rfl, hdepth⟩
  | resetState => exact ⟨rfl, Nat.zero_le _⟩
  | peek | accept | position | setTokens | setEndPosition => exact ⟨rfl, hdepth⟩

theorem limit_after (hdepth : c.depth ≤ c.maxDepth) (calls : List Call) :
    (c.after calls).maxDepth = c.maxDepth ∧ (c.after calls).depth ≤ c.maxDepth := by
  induction calls generalizing c with
  | nil => exact ⟨rfl, hdepth⟩
  | cons call calls ih =>
      obtain ⟨hmax, hle⟩ := limit_act hdepth call
      rw [← hmax] at hle ⊢
      exact ih hle

/-- After any calls no more subshells are open than the limit allows, and each reader goes on in an
orderly way: it keeps the tokens, the limit and the end of the input, leaves every subshell that it
enters unless it fails, and then stays where the error is. -/
theorem orderly_after_calls {tokens : List Token} {limit : Int} {endPosition : Option Int}
    {first : Cursor} (h : new tokens limit endPosition = .ok first) (calls : List Call) :
    let c := first.after calls
    c.maxDepth = limit ∧ c.depth ≤ c.maxDepth ∧
      (∀ level, c.Orderly c.Fits (c.readNode level)) ∧
      ∀ kinds, c.Orderly (fun t => t ∈ c.tokens ∧ t.kind ∈ kinds) (c.expect kinds) := by
  intro c
  obtain ⟨hlimit, hfirst⟩ : first.maxDepth = limit ∧ first.depth ≤ first.maxDepth := by
    rw [new] at h
    split at h <;> cases h
    exact ⟨Int.toNat_of_nonneg (by omega), Nat.zero_le _⟩
  obtain ⟨hmax, hle⟩ : c.maxDepth = first.maxDepth ∧ c.depth ≤ first.maxDepth :=
    limit_after hfirst calls
  rw [← hmax] at hlimit hle
  exact ⟨hlimit, hle, orderly_readNode hle, orderly_expect hle⟩

/-- A line that ended within two subshells, with three allowed. From there a third one is read off
other tokens; where there are fewer of them the cursor stands behind the last one, and without any
it has no position. -/
theorem orderly_after_calls_dirty :
    let first : Cursor := ⟨tokenize "((a|", 3, none, 0, 0⟩
    let left (text : String) := first.after [.parse, .setTokens (tokenize text)]
    let node : Node := .subshell (.single (.single (.command (.simple ⟨⟨"e"⟩, []⟩ []))))
    let err : SyntaxError :=
      ⟨.unexpectedEnd, stageKinds, none, 4, 1, "expected a command"⟩
    ((left "a").index = 4 ∧ (left "a").depth = 2) ∧
      (((left "a b c d (e)").readNode .stage).1 = .ok node ∧ (left "a b c d (e)").Fits node) ∧
      (((left "a").readNode .command).1 = .error (.rejected err) ∧
        ((left "a").readNode .command).2.index = 4) ∧
      ((left "").expect [.word]).1 = .error .outOfTokens := by
  intro first left node err
  have hfirst : new (tokenize "((a|") 3 none = .ok first := rfl
  obtain ⟨_, _, hread, _⟩ :=
    orderly_after_calls hfirst [.parse, .setTokens (tokenize "a b c d (e)")]
  obtain ⟨_, _, hrejected, _⟩ := orderly_after_calls hfirst [.parse, .setTokens (tokenize "a")]
  obtain ⟨_, _, _, hexpect⟩ := orderly_after_calls hfirst [.parse, .setTokens (tokenize "")]
  have hnode : ((left "a b c d (e)").readNode .stage).1 = .ok node := by with_unfolding_all rfl
  have herr : ((left "a").readNode .command).1 = .error (.rejected err) := by
    with_unfolding_all rfl
  refine ⟨by decide +kernel, ⟨hnode, ((hread .stage).ok node hnode).2.2⟩, ⟨herr, ?_⟩, ?_⟩
  · exact Int.ofNat.inj ((hrejected .command).rejected err herr).1
  · exact (hexpect [.word]).outOfTokens.mpr (by decide +kernel)

end ShellGrammar.Cursor
