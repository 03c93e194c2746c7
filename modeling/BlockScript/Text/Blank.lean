/-
  Blanks: the characters of the standard's White_Space property, and trimming them off a text.
-/
import BlockScript.Text.CharSet

namespace BlockScript

/-- The White_Space property. -/
def whiteSpace : CharSet := ⟨
  [0x9, 0xE, 0x20, 0x21, 0x85, 0x86, 0xA0, 0xA1, 0x1680, 0x1681, 0x2000, 0x200B, 0x2028, 0x202A,
  0x202F, 0x2030, 0x205F, 0x2060, 0x3000, 0x3001]⟩

/-- Whether the character is a blank, line breaks included. -/
def isBlank (c : Char) : Bool := whiteSpace.contains c

end BlockScript
