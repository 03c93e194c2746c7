/-
  Texts as bytes: the UTF-8 form, and reading it back.

  Reading is strict (`ofBytes?` refuses anything that is not the form of a text) or lenient
  (`ofBytesLossy` puts one replacement character for each longest run of bytes that begins a
  character but does not complete it, and for each byte that begins none).
-/
import BlockScript.Text.Basic

namespace BlockScript

/-- A sequence of bytes. -/
abbrev Bytes := List UInt8

namespace Bytes

/-- The number a byte that goes on with a character adds to it; `none` if it lies outside the
    bounds. -/
def continuation (low high : Nat) (b : Option UInt8) : Option Nat :=
  b.bind fun b => if low ≤ b.toNat ∧ b.toNat ≤ high then some (b.toNat - 0x80) else none

/-- The bounds of the second byte of a character, by its first. -/
def secondBounds (first : Nat) : Nat × Nat :=
  if first = 0xE0 then (0xA0, 0xBF)
  else if first = 0xED then (0x80, 0x9F)
  else if first = 0xF0 then (0x90, 0xBF)
  else if first = 0xF4 then (0x80, 0x8F)
  else (0x80, 0xBF)

/-- Takes the bytes that go on with a character: the number built so far is `n`, `more` bytes are
    due after `taken`, and the next lies in the bounds.  Gives the character, if complete, and how
    many bytes were taken. -/
def follow (n taken : Nat) (low high : Nat) : Nat → Bytes → Option Nat × Nat
  | 0, _ => (some n, taken)
  | more + 1, bs =>
    match continuation low high bs.head? with
    | some v => follow (n * 64 + v) (taken + 1) 0x80 0xBF more (bs.drop 1)
    | none => (none, taken)

/-- The character that the bytes begin with, if they do, and how many bytes that takes. -/
def first (b : UInt8) (bs : Bytes) : Option Char × Nat :=
  let n := b.toNat
  let (low, high) := secondBounds n
  let (value, taken) :=
    if n < 0x80 then (some n, 1)
    else if 0xC2 ≤ n ∧ n ≤ 0xDF then follow (n - 0xC0) 1 low high 1 bs
    else if 0xE0 ≤ n ∧ n ≤ 0xEF then follow (n - 0xE0) 1 low high 2 bs
    else if 0xF0 ≤ n ∧ n ≤ 0xF4 then follow (n - 0xF0) 1 low high 3 bs
    else (none, 1)
  (value.map Char.ofNat, taken)

/-- The characters of the bytes, `none` for what is no character. -/
def decode : Bytes → List (Option Char)
  | [] => []
  | b :: bs =>
    let (c, taken) := first b bs
    c :: decode (bs.drop (taken - 1))
termination_by bs => bs.length
decreasing_by simp only [List.length_drop, List.length_cons]; omega

end Bytes

namespace Text

/-- The text with the given UTF-8 form. -/
def ofBytes? (bs : Bytes) : Option Text := bs.decode.mapM id

/-- The text read from bytes, with replacement characters for what is no character. -/
def ofBytesLossy (bs : Bytes) : Text := bs.decode.map (·.getD '�')

/-- The UTF-8 form of a text. -/
def toBytes (t : Text) : Bytes := (String.ofList t).toUTF8.toList

end Text

end BlockScript
