/-!
Sets of characters given by closed ranges of code points.
-/
namespace ShellGrammar.Text

/-- The code points from `first` to `last`, both included. -/
structure CodeRange where
  first : Nat
  last : Nat
  deriving DecidableEq, Repr

namespace CodeRange

def contains (r : CodeRange) (n : Nat) : Bool := r.first ≤ n && n ≤ r.last

def covers (rs : List CodeRange) (c : Char) : Bool := rs.any (·.contains c.toNat)

end CodeRange
end ShellGrammar.Text
