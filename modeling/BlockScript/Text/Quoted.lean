/-
  Texts in double quotes, for listings.

  The usual short escapes are used where there is one.  Other characters that do not show by
  themselves, and those that would join the character before them, are written by their number.
-/
import BlockScript.Text.Basic
import BlockScript.Text.Printable

namespace BlockScript

namespace Text

/-- The number of a character, in hexadecimal. -/
def hexOf (c : Char) : Text := Nat.toDigits 16 c.toNat

/-- One character between double quotes. -/
def escapeChar (c : Char) : Text :=
  if c = '\t' then "\\t".toList
  else if c = '\r' then "\\r".toList
  else if c = '\n' then "\\n".toList
  else if c = '"' then "\\\"".toList
  else if c = '\\' then "\\\\".toList
  else if c = '\x00' then "\\0".toList
  else if isPrintable c && !extendsGrapheme c then [c]
  else "\\u\x7b".toList ++ hexOf c ++ "\x7d".toList

/-- A text in double quotes. -/
def quoted (t : Text) : Text := '"' :: t.flatMap escapeChar ++ ['"']

end Text

end BlockScript
