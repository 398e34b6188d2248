import ShellGrammar.Text.CodeRange

/-!
Blank characters, the ones that separate words. The set is the white space of Unicode 14
together with the four separator controls U+001C to U+001F; it extends core's ASCII notion.
-/
namespace ShellGrammar.Text

def blankRanges : List CodeRange :=
  [⟨0x09, 0x0D⟩, ⟨0x1C, 0x20⟩, ⟨0x85, 0x85⟩, ⟨0xA0, 0xA0⟩, ⟨0x1680, 0x1680⟩, ⟨0x2000, 0x200A⟩,
   ⟨0x2028, 0x2029⟩, ⟨0x202F, 0x202F⟩, ⟨0x205F, 0x205F⟩, ⟨0x3000, 0x3000⟩]

def isBlank (c : Char) : Bool := CodeRange.covers blankRanges c

end ShellGrammar.Text
