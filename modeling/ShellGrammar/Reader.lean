import ShellGrammar.SyntaxError
import ShellGrammar.Tree.Build

/-!
Readers take tokens from the front of a list and leave the rest. A reader that stops tells why,
what it had not read by then, and how many subshells it had entered and not left. No reader leaves
more than it was given; this law bounds the one loop, `Reader.many`.
-/
namespace ShellGrammar

/-- What is wrong with the tokens. -/
inductive Reader.Fault
  /-- The next token is none of the kinds that may come here. -/
  | unmet (expected : List Token.Kind)
  | noCommand
  | emptyGroup
  | nestingTooDeep
  | trailingInput
  deriving DecidableEq, Repr

/-- The grammar is violated, or a token's text does not suit its kind. -/
inductive Reader.Reason
  | fault (f : Fault)
  | build (e : BuildError)
  deriving DecidableEq, Repr

structure Reader.Stop where
  reason : Reader.Reason
  rest : List Token
  opened : Nat
  deriving DecidableEq, Repr

structure Reader (α : Type) where
  read : List Token → Except Reader.Stop (α × List Token)
  rest_le : ∀ {ts a rest}, read ts = .ok (a, rest) → rest.length ≤ ts.length

namespace Reader
variable {α β : Type}

protected def pure (a : α) : Reader α where
  read ts := .ok (a, ts)
  rest_le h := by
    cases h
    exact Nat.le_refl _

protected def bind (r : Reader α) (next : α → Reader β) : Reader β where
  read ts :=
    match r.read ts with
    | .ok (a, rest) => (next a).read rest
    | .error stop => .error stop
  rest_le {ts b rest} h := by
    split at h
    · next a middle hr => exact Nat.le_trans ((next a).rest_le h) (r.rest_le hr)
    · cases h

instance : Monad Reader where
  pure := Reader.pure
  bind := Reader.bind

def stop (reason : Reason) : Reader α where
  read ts := .error ⟨reason, ts, 0⟩
  rest_le h := by cases h

def lift : Except BuildError α → Reader α
  | .ok a => pure a
  | .error e => stop (.build e)

/-- Whether the next token is of one of the kinds. -/
def nextIs (kinds : List Token.Kind) : List Token → Bool
  | [] => false
  | t :: _ => kinds.contains t.kind

def upcoming (kinds : List Token.Kind) : Reader Bool where
  read ts := .ok (nextIs kinds ts, ts)
  rest_le h := by
    cases h
    exact Nat.le_refl _

def expect (kinds : List Token.Kind) : Reader Token where
  read
    | [] => .error ⟨.fault (.unmet kinds), [], 0⟩
    | t :: rest =>
      if kinds.contains t.kind then .ok (t, rest) else .error ⟨.fault (.unmet kinds), t :: rest, 0⟩
  rest_le {ts a rest} h := by
    cases ts with
    | nil => cases h
    | cons t ts =>
      simp only at h
      split at h
      · cases h
        exact Nat.le_succ _
      · cases h

/-- Reads the inside of a subshell. -/
def inside (r : Reader α) : Reader α where
  read ts :=
    match r.read ts with
    | .ok result => .ok result
    | .error stop => .error { stop with opened := stop.opened + 1 }
  rest_le h := by
    split at h
    · next hr =>
      cases h
      exact r.rest_le hr
    · cases h

def readMany (kinds : List Token.Kind) (item : Token → Reader α) :
    List Token → Except Stop (List α × List Token)
  | [] => .ok ([], [])
  | t :: ts =>
    if kinds.contains t.kind then
      match _h : (item t).read ts with
      | .ok (a, rest) =>
        match readMany kinds item rest with
        | .ok (as, rest) => .ok (a :: as, rest)
        | .error stop => .error stop
      | .error stop => .error stop
    else .ok ([], t :: ts)
termination_by ts => ts.length
decreasing_by exact Nat.lt_succ_of_le ((item t).rest_le _h)

theorem readMany_rest_le {kinds : List Token.Kind} {item : Token → Reader α} {ts : List Token} :
    ∀ {as : List α} {rest : List Token},
      readMany kinds item ts = .ok (as, rest) → rest.length ≤ ts.length := by
  fun_induction readMany kinds item ts with
  | case1 =>
    rintro as rest ⟨⟩
    exact Nat.le_refl _
  | case2 t ts _ a middle ha as' rest' hr ih =>
    rintro as rest ⟨⟩
    exact Nat.le_trans (ih hr) (Nat.le_succ_of_le ((item t).rest_le ha))
  | case3 | case4 => rintro as rest ⟨⟩
  | case5 =>
    rintro as rest ⟨⟩
    exact Nat.le_refl _

/-- As long as the next token is of one of the kinds, takes it and reads the item that it opens. -/
def many (kinds : List Token.Kind) (item : Token → Reader α) : Reader (List α) where
  read := readMany kinds item
  rest_le := readMany_rest_le

@[simp] theorem read_pure (a : α) (ts : List Token) :
    (pure a : Reader α).read ts = .ok (a, ts) := rfl

theorem read_bind (r : Reader α) (next : α → Reader β) (ts : List Token) :
    (r >>= next).read ts =
      match r.read ts with
      | .ok (a, rest) => (next a).read rest
      | .error stop => .error stop := rfl

@[simp] theorem read_stop (reason : Reason) (ts : List Token) :
    (stop reason : Reader α).read ts = .error ⟨reason, ts, 0⟩ := rfl

end Reader
end ShellGrammar
