/-
  Values of settings, and how one layer of them is laid over another.

  A value is a scalar, an array or a table, and remembers the file it was read from.  Laying a table
  over a value changes the value key by key and keeps the other keys; anything else replaces what it
  is laid over.  Keys are compared in lower case.
-/
import BlockScript.Decimal.Shortest
import BlockScript.Text.Basic
import BlockScript.Text.Casing

namespace BlockScript

/-- A value without parts. -/
inductive Scalar where
  | unit
  | bool (b : Bool)
  | int (n : Int)
  | float (x : Double)
  | string (t : Text)
  deriving DecidableEq, Repr

/-- The value of a setting, with the file it was read from. -/
inductive Setting where
  | scalar (origin : Option Text) (s : Scalar)
  | array (origin : Option Text) (items : List Setting)
  | table (origin : Option Text) (fields : List (Text × Setting))

namespace Setting

/-- The file a value was read from. -/
def origin : Setting → Option Text
  | .scalar origin _ => origin
  | .array origin _ => origin
  | .table origin _ => origin

/-- The value that stands for none. -/
def unit : Setting := .scalar none .unit

/-- The fields of a table; other values have none. -/
def fields : Setting → List (Text × Setting)
  | .table _ fields => fields
  | _ => []

/-- The items of an array; other values have none. -/
def items : Setting → List Setting
  | .array _ items => items
  | _ => []

/-- The value as a table with other fields.  A value that was no table loses its origin. -/
def withFields (s : Setting) (fields : List (Text × Setting)) : Setting :=
  match s with
  | .table origin _ => .table origin fields
  | _ => .table none fields

/-- The value as an array with other items.  A value that was no array loses its origin. -/
def withItems (s : Setting) (items : List Setting) : Setting :=
  match s with
  | .array origin _ => .array origin items
  | _ => .array none items

/-- The fields with `key` set to a value. -/
def put (key : Text) (v : Setting) : List (Text × Setting) → List (Text × Setting)
  | [] => [(key, v)]
  | (k, old) :: rest => if k = key then (key, v) :: rest else (k, old) :: put key v rest

/-- The items with number `i` set to a value; items that are not there yet stand for none. -/
def putAt (v : Setting) : Nat → List Setting → List Setting
  | 0, [] => [v]
  | 0, _ :: rest => v :: rest
  | i + 1, [] => unit :: putAt v i []
  | i + 1, old :: rest => old :: putAt v i rest

mutual
/-- The fields with a value laid over that of `key`. -/
def lay (fields : List (Text × Setting)) (key : Text) : Setting → List (Text × Setting)
  | .table _ incoming =>
    let old := (fields.lookup (lowercase key)).getD (.table none [])
    put (lowercase key) (layFields old incoming) fields
  | .scalar origin s => put (lowercase key) (.scalar origin s) fields
  | .array origin items => put (lowercase key) (.array origin items) fields

/-- The value with each of the fields laid over it. -/
def layFields (old : Setting) : List (Text × Setting) → Setting
  | [] => old
  | (key, v) :: rest => layFields (old.withFields (lay old.fields key v)) rest
end

/-! ## Paths -/

/-- One step into a value: to a field, or to an item counted from the front or, if negative, from
    the end. -/
inductive Step where
  | key (k : Text)
  | index (i : Int)
  deriving DecidableEq, Repr

/-- The place in an array of `n` items that an index means. -/
def placeOf (i : Int) (n : Nat) : Nat := if 0 ≤ i then i.toNat else n - i.natAbs

/-- The value `old` with `v` laid at the end of a path.  On the way a value that has no such parts
    gives way to one that has. -/
def layAt (v old : Setting) : List Step → Setting
  | [] => v
  | [.key k] => old.withFields (lay old.fields k v)
  | .key k :: path =>
    let k := lowercase k
    old.withFields (put k (layAt v ((old.fields.lookup k).getD unit) path) old.fields)
  | .index i :: path =>
    let n := placeOf i old.items.length
    old.withItems (putAt (layAt v (old.items.getD n unit) path) n old.items)

/-- Whether a character may stand in a key of a path. -/
def isKeyChar (c : Char) : Bool := c.isAlphanum || c = ' ' || c = '_' || c = '-'

/-- The index between brackets at the start of the text (after the opening one), and the rest. -/
def indexIn? (t : Text) : Option (Int × Text) :=
  let isBlank (c : Char) : Bool := c = ' ' || c = '\t'
  let t := t.dropWhile isBlank
  let (negative, t) := match t with
    | '-' :: t => (true, t)
    | t => (false, t)
  let digits := t.takeWhile Char.isDigit
  let value := digits.foldl (fun n c => n * 10 + (c.toNat - '0'.toNat)) 0
  match (t.drop digits.length).dropWhile isBlank with
  | ']' :: rest =>
    if digits.isEmpty || UInt64.size / 2 ≤ value then none
    else some (if negative then -(value : Int) else value, rest)
  | _ => none

/-- The further steps of a path: `.` and a key, or an index in brackets.  `fuel` bounds their
    number. -/
def stepsOf? : Nat → Text → Option (List Step)
  | _, [] => some []
  | 0, _ => none
  | fuel + 1, '.' :: t =>
    let key := t.takeWhile isKeyChar
    if key.isEmpty then none else (stepsOf? fuel (t.drop key.length)).map (.key key :: ·)
  | fuel + 1, '[' :: t => (indexIn? t).bind fun (i, rest) => (stepsOf? fuel rest).map (.index i :: ·)
  | _, _ => none

/-- The path that a text such as `checker.args[1]` writes. -/
def pathOf? (t : Text) : Option (List Step) :=
  let key := t.takeWhile isKeyChar
  if key.isEmpty then none else (stepsOf? t.length (t.drop key.length)).map (.key key :: ·)

end Setting

end BlockScript
