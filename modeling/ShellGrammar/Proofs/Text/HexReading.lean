import Mathlib.Algebra.Group.Nat.Defs
import ShellGrammar.Text.Hex

/-!
Reading hexadecimal digits. What is written with a fixed number of digits is read back, as far as
that many digits can tell it, and nothing behind the digits is taken.
-/
namespace ShellGrammar.Text

/-- The code points of characters leave out the surrogates. -/
theorem toNat_valid (c : Char) : c.toNat < 0xD800 ∨ 0xDFFF < c.toNat ∧ c.toNat < 0x110000 :=
  c.valid

/-- The value of a hexadecimal digit, in lower or upper case. -/
def hexValue? (c : Char) : Option Nat :=
  if '0' ≤ c ∧ c ≤ '9' then some (c.toNat - '0'.toNat)
  else if 'a' ≤ c ∧ c ≤ 'f' then some (c.toNat - 'a'.toNat + 10)
  else if 'A' ≤ c ∧ c ≤ 'F' then some (c.toNat - 'A'.toNat + 10)
  else none

/-- Reads `width` digits behind those that make up `value`. -/
def readHex : (width : Nat) → (value : Nat) → List Char → Option (Nat × List Char)
  | 0, value, cs => some (value, cs)
  | _ + 1, _, [] => none
  | width + 1, value, c :: cs => (hexValue? c).bind fun d => readHex width (16 * value + d) cs

variable {width value n : Nat} {cs rest : List Char}

theorem hexValue?_digitChar : ∀ d < 16, hexValue? (Nat.digitChar d) = some d := by decide

theorem readHex_rest_le (h : readHex width value cs = some (n, rest)) :
    rest.length ≤ cs.length := by
  induction width generalizing value cs with
  | zero =>
      cases h
      exact Nat.le_refl _
  | succ width ih =>
      cases cs with
      | nil => cases h
      | cons c cs =>
          obtain ⟨d, _, hd⟩ := Option.bind_eq_some_iff.mp h
          exact Nat.le_succ_of_le (ih hd)

theorem readHex_add (first second value : Nat) (cs : List Char) :
    readHex (first + second) value cs =
      (readHex first value cs).bind fun r => readHex second r.1 r.2 := by
  induction first generalizing value cs with
  | zero => rw [Nat.zero_add, readHex, Option.bind_some]
  | succ first ih =>
      rw [Nat.succ_add]
      cases cs with
      | nil => rfl
      | cons c cs =>
          simp only [readHex]
          cases hexValue? c with
          | none => rfl
          | some d => exact ih (16 * value + d) cs

theorem readHex_hexDigits (width value n : Nat) (rest : List Char) :
    readHex width value (hexDigits width n ++ rest) =
      some (value * 16 ^ width + n % 16 ^ width, rest) := by
  induction width generalizing n rest with
  | zero => simp [readHex, hexDigits, Nat.mod_one]
  | succ width ih =>
      have hlast : readHex 1 (value * 16 ^ width + n / 16 % 16 ^ width)
          (Nat.digitChar (n % 16) :: rest) =
            some (16 * (value * 16 ^ width + n / 16 % 16 ^ width) + n % 16, rest) := by
        rw [readHex, hexValue?_digitChar _ (Nat.mod_lt _ (by decide))]
        rfl
      have hvalue : 16 * (value * 16 ^ width + n / 16 % 16 ^ width) + n % 16 =
          value * 16 ^ (width + 1) + n % 16 ^ (width + 1) := by
        rw [Nat.pow_succ, Nat.mul_comm (16 ^ width) 16, Nat.mod_mul, ← Nat.mul_assoc value,
          Nat.mul_comm value 16, Nat.mul_add, Nat.mul_assoc 16 value]
        omega
      rw [hexDigits, List.append_assoc, readHex_add, ih, Option.bind_some, List.singleton_append,
        hlast, hvalue]

/-- A number that the digits suffice for is read back. -/
theorem readHex_of_lt (h : n < 16 ^ width) (rest : List Char) :
    readHex width 0 (hexDigits width n ++ rest) = some (n, rest) := by
  rw [readHex_hexDigits, Nat.zero_mul, Nat.zero_add, Nat.mod_eq_of_lt h]

theorem mem_hexDigits_bounds {c : Char} (h : c ∈ hexDigits width n) :
    '0' ≤ c ∧ c ≤ 'f' := by
  have hdigit : ∀ d < 16, '0' ≤ Nat.digitChar d ∧ Nat.digitChar d ≤ 'f' := by decide
  induction width generalizing n with
  | zero => cases h
  | succ width ih =>
      rw [hexDigits, List.mem_append, List.mem_singleton] at h
      cases h with
      | inl h => exact ih h
      | inr h => exact h ▸ hdigit _ (Nat.mod_lt _ (by decide))

end ShellGrammar.Text
