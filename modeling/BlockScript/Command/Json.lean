/-
  JSON values, and their layout over several lines: two blanks for each level, one item or field a
  line, nothing between the brackets of what is empty.
-/
import BlockScript.Text.Basic

namespace BlockScript

/-- A JSON value. -/
inductive Json where
  | null
  | number (n : Nat)
  | string (t : Text)
  | array (items : List Json)
  | object (fields : List (String × Json))

namespace Json

/-- One character of a string between double quotes. -/
def escapeChar (c : Char) : Text :=
  if c = '"' then "\\\"".toList
  else if c = '\\' then "\\\\".toList
  else if c = '\n' then "\\n".toList
  else if c = '\r' then "\\r".toList
  else if c = '\t' then "\\t".toList
  else if c = '\x08' then "\\b".toList
  else if c = '\x0c' then "\\f".toList
  else if c < ' ' then "\\u".toList ++ (Nat.toDigits 16 (0x10000 + c.toNat)).drop 1
  else [c]

/-- A string between double quotes. -/
def quote (t : Text) : Text := '"' :: t.flatMap escapeChar ++ ['"']

/-- The line break and the blanks before what lies `level` deep. -/
def break_ (level : Nat) : Text := '\n' :: List.replicate (2 * level) ' '

/-- The rendered parts between brackets that lie `level` deep. -/
def bracketed (left right : Char) (level : Nat) (parts : List Text) : Text :=
  if parts.isEmpty then [left, right]
  else
    let lines := parts.map (break_ (level + 1) ++ ·)
    left :: List.intercalate [','] lines ++ break_ level ++ [right]

mutual
/-- A value that lies `level` deep, as text. -/
def render (level : Nat) : Json → Text
  | .null => "null".toList
  | .number n => Nat.toDigits 10 n
  | .string t => quote t
  | .array items => bracketed '[' ']' level (renderItems level items)
  | .object fields => bracketed '\x7b' '\x7d' level (renderFields level fields)

/-- The items of an array that lies `level` deep. -/
def renderItems (level : Nat) : List Json → List Text
  | [] => []
  | v :: rest => render (level + 1) v :: renderItems level rest

/-- The fields of an object that lies `level` deep. -/
def renderFields (level : Nat) : List (String × Json) → List Text
  | [] => []
  | (key, v) :: rest =>
    (quote key.toList ++ ": ".toList ++ render (level + 1) v) :: renderFields level rest
end

/-- The value as text, over several lines. -/
def pretty (v : Json) : Text := render 0 v

mutual
/-- The value with the fields of all its objects in the order of their keys. -/
def sortKeys : Json → Json
  | .array items => .array (sortItems items)
  | .object fields => .object ((sortFields fields).mergeSort fun a b => a.1 ≤ b.1)
  | .null => .null
  | .number n => .number n
  | .string t => .string t

/-- The items with the fields of all objects in the order of their keys. -/
def sortItems : List Json → List Json
  | [] => []
  | v :: rest => sortKeys v :: sortItems rest

/-- The fields with the fields of all objects in them in the order of their keys. -/
def sortFields : List (String × Json) → List (String × Json)
  | [] => []
  | (key, v) :: rest => (key, sortKeys v) :: sortFields rest
end

/-- The object of a range of offsets. -/
def range (start stop : Nat) : Json := .object [("start", .number start), ("end", .number stop)]

end Json

end BlockScript
