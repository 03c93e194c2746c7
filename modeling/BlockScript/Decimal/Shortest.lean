/-
  Numbers in floating point, and the fewest decimal digits that say which one is meant.

  A finite number is `m · 2 ^ q`.  The reals that round to it form an interval around it, whose ends
  belong to it if `m` is even.  For one digit, two digits, and so on, the number has two neighbours
  among the decimals of so many digits; the first of them to lie in the interval is written, and of
  two the nearer, the greater if they are equally near.
-/
namespace BlockScript

/-- A number in floating point. -/
inductive Double where
  | nan
  | infinite (negative : Bool)
  /-- `m · 2 ^ q` -/
  | finite (negative : Bool) (m : Nat) (q : Int)
  deriving DecidableEq, Repr

namespace Double

/-- The number that the 64 bits stand for. -/
def ofBits (bits : Nat) : Double :=
  let negative := decide (bits >>> 63 % 2 = 1)
  let exponent : Nat := bits >>> 52 % (1 <<< 11)
  let fraction : Nat := bits % (1 <<< 52)
  if exponent = 2047 then if fraction = 0 then .infinite negative else .nan
  else if exponent = 0 then .finite negative fraction (-1074)
  else .finite negative (1 <<< 52 + fraction) ((exponent : Int) - 1075)

/-- The number nearest to `digits · 10 ^ exponent`. -/
def ofDecimal (negative : Bool) (digits : Nat) (exponent : Int) : Double :=
  let top := (Nat.toDigits 10 digits).length + exponent
  if digits = 0 ∨ top < -400 then .finite negative 0 (-1074)
  else if 400 < top then .infinite negative
  else
    let x := Float.ofScientific digits (exponent < 0) exponent.natAbs
    match ofBits x.toBits.toNat with
    | .finite _ m q => .finite negative m q
    | .infinite _ => .infinite negative
    | .nan => .nan

/-- Whether the number is zero. -/
def isZero : Double → Bool
  | .finite _ m _ => m = 0
  | _ => false

/-- The nearest whole number below `2 ^ 64`, a half going up; what lies below zero, or is no number,
    counts as zero. -/
def toWord : Double → Nat
  | .nan => 0
  | .infinite negative => if negative then 0 else UInt64.size - 1
  | .finite negative m q =>
    let whole := if 0 ≤ q then m <<< q.natAbs else (2 * m + 1 <<< q.natAbs) / (2 <<< q.natAbs)
    if negative then 0 else min whole (UInt64.size - 1)

/-! ## Digits -/

/-- `a · 10 ^ k` over `2 ^ q`, as a fraction. -/
def fractionOf (k q : Int) (a : Nat) : Nat × Nat :=
  ((a * Nat.pow 10 k.toNat) <<< (-q).toNat, Nat.pow 10 (-k).toNat <<< q.toNat)

/-- Whether `d · 10 ^ k` rounds to `m · 2 ^ q`. -/
def rounds (m : Nat) (q k : Int) (d : Nat) : Bool :=
  -- four units to the last place of `m`; a power of two has the finer grid below it
  let (n, den) := fractionOf k (q - 2) d
  let low := (if m = 1 <<< 52 ∧ -1074 < q then 4 * m - 1 else 4 * m - 2) * den
  let high := (4 * m + 2) * den
  if m % 2 = 0 then low ≤ n && n ≤ high else low < n && n < high

/-- How far `d · 10 ^ k` is from `m · 2 ^ q`, in a unit that depends on `k` and `q` only. -/
def distance (m : Nat) (q k : Int) (d : Nat) : Nat :=
  let (n, den) := fractionOf k q d
  (n - m * den) + (m * den - n)

/-- The exponent of the number's first digit. -/
def leading (m : Nat) (q : Int) : Int :=
  let (n, den) := fractionOf 0 (-q) m
  if den ≤ n then (Nat.toDigits 10 (n / den)).length - 1
  else -(((List.range 400).find? fun j => den ≤ n * Nat.pow 10 j).getD 400 : Nat)

/-- The shortest decimal for `m · 2 ^ q` among those whose last digit stands at `k`, or further
    down. -/
def search (m : Nat) (q : Int) : Nat → Int → Nat × Int
  | 0, k => (0, k)
  | more + 1, k =>
    let (n, den) := fractionOf (-k) (-q) m
    let d := n / den
    match rounds m q k d, rounds m q k (d + 1) with
    | true, true => if distance m q k (d + 1) ≤ distance m q k d then (d + 1, k) else (d, k)
    | true, false => (d, k)
    | false, true => (d + 1, k)
    | false, false => search m q more (k - 1)

/-- The shortest decimal `d · 10 ^ k` for `m · 2 ^ q`.  The search starts above the first digit,
    since the number may be meant by the next power of ten. -/
def shortest (m : Nat) (q : Int) : Nat × Int := search m q 19 (leading m q + 1)

/-- The number in decimal digits, without an exponent. -/
def decimal (d : Nat) (k : Int) : List Char :=
  let ds := Nat.toDigits 10 d
  let places := (-k).toNat
  if 0 ≤ k then ds ++ List.replicate k.toNat '0'
  else if places < ds.length then ds.take (ds.length - places) ++ '.' :: ds.drop (ds.length - places)
  else '0' :: '.' :: List.replicate (places - ds.length) '0' ++ ds

/-- The number as text. -/
def text : Double → List Char
  | .nan => "NaN".toList
  | .infinite negative => (if negative then "-inf" else "inf").toList
  | .finite negative m q =>
    let digits := if m = 0 then ['0'] else
      let (d, k) := shortest m q
      decimal d k
    if negative then '-' :: digits else digits

end Double

end BlockScript
