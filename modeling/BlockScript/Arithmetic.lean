/-
  Numbers of 64 bits.

  Offsets and columns are numbers of 64 bits.  A sum that needs more bits fails, and the question that
  asked for it has no answer.  An arithmetic that wraps goes on with the sum modulo 2^64 instead.
-/
namespace BlockScript

/-- What becomes of a result that is no number of 64 bits. -/
inductive Arithmetic where
  /-- it fails -/
  | checked
  /-- it is taken modulo 2^64 -/
  | wrapping
  deriving DecidableEq, Repr

namespace Arithmetic

/-- The sum of two numbers. -/
def add? : Arithmetic → Nat → Nat → Option Nat
  | .checked, m, n => if m + n < UInt64.size then some (m + n) else none
  | .wrapping, m, n => some ((m + n) % UInt64.size)

/-- The difference of two numbers. -/
def sub? : Arithmetic → Nat → Nat → Option Nat
  | .checked, m, n => if n ≤ m then some (m - n) else none
  | .wrapping, m, n => some ((m + (UInt64.size - n)) % UInt64.size)

end Arithmetic

/-- The most bytes that a text can have. -/
def maxTextSize : Nat := UInt64.size / 2 - 1

end BlockScript
