/-!
Hexadecimal digits of a fixed width, most significant first, in lower case.
-/
namespace ShellGrammar.Text

/-- The last `width` hexadecimal digits of `n`. -/
def hexDigits : (width : Nat) → (n : Nat) → List Char
  | 0, _ => []
  | width + 1, n => hexDigits width (n / 16) ++ [Nat.digitChar (n % 16)]

end ShellGrammar.Text
