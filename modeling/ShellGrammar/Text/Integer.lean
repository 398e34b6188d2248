import ShellGrammar.Text.Blank
import ShellGrammar.Text.Digit
import ShellGrammar.Text.Quoted

/-!
Reading decimal integers. A literal is one optional sign and digits of any script, single
underscores being allowed between two digits, with padding around it. Literals of more than
`digitLimit` digits are refused, leading zeros counted.
-/
namespace ShellGrammar.Text

/-- The blanks that may stand around a literal: all but the separator controls. -/
def isPadding (c : Char) : Bool := isBlank c && !(0x1C ≤ c.toNat && c.toNat ≤ 0x1F)

inductive IntegerError
  | malformed (literal : String)
  | tooLong (digits : Nat)
  deriving DecidableEq, Repr

def digitLimit : Nat := 4300

/-- A malformed literal is shown quoted, cut to this many characters. -/
def literalShown : Nat := 200

def IntegerError.message : IntegerError → String
  | .malformed literal =>
    "invalid literal for int() with base 10: " ++
      String.ofList ((Quoted.encode literal.toList).take literalShown)
  | .tooLong digits =>
    s!"Exceeds the limit ({digitLimit} digits) for integer string conversion: value has " ++
      s!"{digits} digits; use sys.set_int_max_str_digits() to increase the limit"

/--
The digits at the head of a text, most significant first, and what follows them; nothing if an
underscore there does not stand between two digits. `afterDigit` tells whether a digit was the
character before.
-/
def takeDigits (afterDigit : Bool) : List Char → Option (List Nat × List Char)
  | [] => some ([], [])
  | c :: cs =>
    match digitValue? c with
    | some d => (takeDigits true cs).map fun (ds, rest) => (d :: ds, rest)
    | none =>
      if c = '_' then
        if afterDigit ∧ (cs.head?.bind digitValue?).isSome then takeDigits false cs else none
      else some ([], c :: cs)

def readSign : List Char → Bool × List Char
  | '+' :: cs => (false, cs)
  | '-' :: cs => (true, cs)
  | cs => (false, cs)

def ofDigits (ds : List Nat) : Nat := ds.foldl (fun n d => 10 * n + d) 0

def readInteger (s : String) : Except IntegerError Int :=
  let (negative, body) := readSign (s.toList.dropWhile isPadding)
  match takeDigits false body with
  | none => .error (.malformed s)
  | some (ds, rest) =>
    if digitLimit < ds.length then .error (.tooLong ds.length)
    else if ds.isEmpty || !rest.all isPadding then .error (.malformed s)
    else .ok (if negative then -(ofDigits ds : Int) else ofDigits ds)

structure NotPositive where
  literal : String
  deriving DecidableEq, Repr

def NotPositive.message (e : NotPositive) : String :=
  s!"{quoted e.literal} is not a positive integer"

/-- Every failure to read a literal is reported the same way as a value below one. -/
def readPositive (s : String) : Except NotPositive Int :=
  match readInteger s with
  | .ok n => if 0 < n then .ok n else .error ⟨s⟩
  | .error _ => .error ⟨s⟩

end ShellGrammar.Text
