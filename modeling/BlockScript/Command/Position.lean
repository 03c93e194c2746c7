/-
  Positions as people give them: a byte offset, or a line and a byte column, both counted from 1.
-/
import BlockScript.Arithmetic
import BlockScript.Text.Basic

namespace BlockScript

/-- Why a position is not in a text. -/
inductive PositionError where
  | notOffset (offset : Nat)
  | zero
  | pastEnd (line : Nat)
  /-- the column, counted from the start of its line, is no number of 64 bits -/
  | overflow
  | notOnLine (line column : Nat)
  deriving DecidableEq, Repr

namespace PositionError

/-- The error in words. -/
def message : PositionError → String
  | .notOffset offset => "offset " ++ toString offset ++ " is not a character position of the file"
  | .zero => "lines and columns start at 1"
  | .pastEnd line => "line " ++ toString line ++ " is past the end of the file"
  | .overflow => "attempt to add with overflow"
  | .notOnLine line column => "column " ++ toString column ++ " is not on line " ++ toString line

end PositionError

/-- A position that is asked for. -/
inductive Position where
  | offset (n : Nat)
  | lineColumn (line column : Nat)
  deriving DecidableEq, Repr

namespace Text

/-- The text before offset `p`; all of it if no character starts there. -/
def upTo (t : Text) (p : Nat) : Text := ((splitAt? t p).map (·.1)).getD t

/-- The line and the column of an offset: one more than the line breaks before it, and one more than
    the bytes since the last of them. -/
def lineColumn (t : Text) (p : Nat) : Nat × Nat :=
  let before := upTo t p
  (before.count '\n' + 1, size (before.reverse.takeWhile (· ≠ '\n')) + 1)

/-- The offset after `n` lines, and the text from there on; `none` if the text has fewer line
    breaks. -/
def afterLines : Nat → Text → Option (Nat × Text)
  | 0, t => some (0, t)
  | n + 1, t =>
    let line := firstLine t
    if line.contains '\n' then
      (afterLines n (t.drop line.length)).map fun (start, rest) => (size line + start, rest)
    else none

/-- The offset of a line and a column: the start of the line and the column less one. -/
def offsetAt (t : Text) (line column : Nat) (arithmetic : Arithmetic := .checked) :
    Except PositionError Nat :=
  if line = 0 ∨ column = 0 then .error .zero
  else
    match afterLines (line - 1) t with
    | none => .error (.pastEnd line)
    | some (start, rest) =>
      let stop := start + size (rest.takeWhile (· ≠ '\n'))
      match (arithmetic.add? start column).bind (arithmetic.sub? · 1) with
      | none => .error .overflow
      | some offset =>
        if offset ≤ stop && t.isBoundary offset then .ok offset
        else .error (.notOnLine line column)

/-- The offset that a position means. -/
def locate (t : Text) : Position → Except PositionError Nat
  | .offset n => if t.isBoundary n then .ok n else .error (.notOffset n)
  | .lineColumn line column => t.offsetAt line column

end Text

end BlockScript
