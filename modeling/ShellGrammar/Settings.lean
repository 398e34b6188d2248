import ShellGrammar.Text.Integer
import ShellGrammar.Value

/-!
Settings in layers. A layer has entries of its own and may have a parent, to which it falls back
for the keys that it lacks. Layers are numbered in the order of their creation, and a parent is
older than its children; so every chain of parents ends.
-/
namespace ShellGrammar

structure Settings.Layer where
  own : List (String × Value)
  parent : Option Nat
  deriving DecidableEq, Repr

structure Settings where
  layers : List Settings.Layer
  parent_lt : ∀ {i : Nat} {layer : Settings.Layer} {p : Nat},
    layers[i]? = some layer → layer.parent = some p → p < i

namespace Settings

structure MissingKey where
  key : String
  deriving DecidableEq, Repr

def MissingKey.message (e : MissingKey) : String := Text.quoted e.key

structure LoadError where
  envVar : String
  reason : String
  deriving DecidableEq, Repr

def LoadError.message (e : LoadError) : String := s!"invalid value of {e.envVar}: {e.reason}"

def empty : Settings where
  layers := []
  parent_lt h := by simp at h

/-- Adds a layer, the last one; its parent has to be one of the layers before it. -/
def create (s : Settings) (parent : Option Nat) : Settings where
  layers := s.layers ++ [⟨[], parent.filter (· < s.layers.length)⟩]
  parent_lt {i layer p} h hp := by
    rcases Nat.lt_trichotomy i s.layers.length with hi | hi | hi
    · rw [List.getElem?_append_left hi] at h
      exact s.parent_lt h hp
    · subst hi
      simp at h
      subst h
      simp [Option.filter_eq_some_iff] at hp
      exact hp.2
    · simp [List.getElem?_eq_none (show (s.layers ++ [_]).length ≤ i by simp; omega)] at h

/-- The number of the layer that `create` adds. -/
def next (s : Settings) : Nat := s.layers.length

def own (s : Settings) (i : Nat) : List (String × Value) := (s.layers[i]?.map (·.own)).getD []

/-- Changes the entries of one layer. -/
def update (s : Settings) (i : Nat) (f : List (String × Value) → List (String × Value)) :
    Settings where
  layers := s.layers.modify i fun layer => { layer with own := f layer.own }
  parent_lt {j layer p} h hp := by
    rw [List.getElem?_modify] at h
    obtain ⟨old, hold, rfl⟩ := Option.map_eq_some_iff.1 h
    refine s.parent_lt hold ?_
    split at hp <;> exact hp

def putEntry (key : String) (v : Value) : List (String × Value) → List (String × Value)
  | [] => [(key, v)]
  | (k, w) :: rest => if k = key then (k, v) :: rest else (k, w) :: putEntry key v rest

def put (s : Settings) (i : Nat) (key : String) (v : Value) : Settings :=
  s.update i (putEntry key v)

/-- Whether the layer itself, not one of its ancestors, has the key. -/
def owns (s : Settings) (i : Nat) (key : String) : Bool := ((s.own i).lookup key).isSome

/-- Removes an entry of the layer itself. -/
def erase (s : Settings) (i : Nat) (key : String) : Except MissingKey Settings :=
  if s.owns i key then .ok (s.update i (·.filter (·.1 ≠ key))) else .error ⟨key⟩

/-- The entry of the layer or of its nearest ancestor that has one. -/
def find? (s : Settings) (i : Nat) (key : String) : Option Value :=
  match _h : s.layers[i]? with
  | none => none
  | some layer =>
    match layer.own.lookup key with
    | some v => some v
    | none =>
      match _hp : layer.parent with
      | some p => s.find? p key
      | none => none
termination_by i
decreasing_by exact s.parent_lt _h _hp

def item (s : Settings) (i : Nat) (key : String) : Except MissingKey Value :=
  (s.find? i key).elim (.error ⟨key⟩) .ok

def get (s : Settings) (i : Nat) (key : String) (fallback : Value) : Value :=
  (s.find? i key).getD fallback

/-- How the text of an environment variable becomes a value. -/
inductive Conversion
  | verbatim
  | integer
  | positive
  deriving DecidableEq, Repr

/-- The value, or the reason why the text has none. -/
def Conversion.convert : Conversion → String → Except String Value
  | verbatim, text => .ok (.text text)
  | integer, text => ((Text.readInteger text).map Value.number).mapError (·.message)
  | positive, text => ((Text.readPositive text).map Value.number).mapError (·.message)

/-- The given value, or else that of the environment variable, or else the fallback. -/
def choose (given : Value) (envVar : String) (envVars : String → Option String)
    (fallback : Value) (convert : String → Except String Value) : Except LoadError Value :=
  if given = .absent then
    match envVars envVar with
    | some text => (convert text).mapError (⟨envVar, ·⟩)
    | none => .ok fallback
  else .ok given

/-- Puts the value that is chosen, and returns it; if there is none, nothing is put. -/
def loadWith (s : Settings) (i : Nat) (key : String) (given : Value) (envVar : String)
    (envVars : String → Option String) (fallback : Value)
    (convert : String → Except String Value) : Except LoadError Value × Settings :=
  match choose given envVar envVars fallback convert with
  | .ok v => (.ok v, s.put i key v)
  | .error e => (.error e, s)

def load (s : Settings) (i : Nat) (key : String) (given : Value) (envVar : String)
    (envVars : String → Option String) (fallback : Value) (conversion : Conversion) :
    Except LoadError (Value × Settings) :=
  let (result, t) := s.loadWith i key given envVar envVars fallback conversion.convert
  result.map (·, t)

end Settings
end ShellGrammar
