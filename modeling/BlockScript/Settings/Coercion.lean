/-
  Reading plain data out of settings.

  A setting need not have the kind that is wanted: words such as `yes` and numbers serve as truth
  values, words and fractions as numbers, and numbers and truth values as texts.  What cannot serve is
  named in the error, together with the key and the file.
-/
import BlockScript.Settings.Value
import BlockScript.Text.Quoted

namespace BlockScript

/-- Why settings cannot be loaded. -/
inductive SettingsError where
  /-- the file is not written as it should be -/
  | malformed (file : Text)
  /-- a file that has to be there is not -/
  | noFile (file : Text)
  /-- a key is no path -/
  | badKey (key : Text)
  /-- a value cannot serve as what is wanted at the key -/
  | unfit (found : Text) (wanted : String) (key : Text) (origin : Option Text)
  /-- a group of settings is neither a table nor an array -/
  | notGroup (key : Text)
  /-- a group lacks a setting -/
  | lacks (name : Text)
  /-- a list was wanted -/
  | notList (key : Text)
  deriving DecidableEq, Repr

namespace SettingsError

/-- The error in words. -/
def message : SettingsError → Text
  | .malformed file => "malformed settings in ".toList ++ file
  | .noFile file => "configuration file ".toList ++ Text.quoted file ++ " not found".toList
  | .badKey key => "malformed key ".toList ++ Text.quoted key
  | .unfit found wanted key origin =>
    let place := match origin with
      | some file => " in ".toList ++ file
      | none => []
    "invalid type: ".toList ++ found ++ ", expected ".toList ++ wanted.toList
      ++ " for key `".toList ++ key ++ ['`'] ++ place
  | .notGroup key => "a group of settings was expected for key `".toList ++ key ++ ['`']
  | .lacks name => "missing field `".toList ++ name ++ ['`']
  | .notList key => "a list was expected for key `".toList ++ key ++ ['`']

end SettingsError

/-- The words for true. -/
def trueWords : List Text := ["true".toList, "on".toList, "yes".toList]

/-- The words for false. -/
def falseWords : List Text := ["false".toList, "off".toList, "no".toList]

/-- The number below `2 ^ 64` that decimal digits write, after a plus sign perhaps. -/
def wordOf? (t : Text) : Option Nat :=
  let digits := match t with
    | '+' :: t => t
    | t => t
  if digits.isEmpty || !digits.all Char.isDigit then none
  else
    let n := digits.foldl (fun n c => n * 10 + (c.toNat - '0'.toNat)) 0
    if n < UInt64.size then some n else none

namespace Setting

/-- The error that the value at a key cannot serve, for the given reason. -/
def unfit {α : Type} (s : Setting) (key : Text) (found : Text) (wanted : String) :
    Except SettingsError α :=
  .error (.unfit found wanted key s.origin)

/-- The error that a value with parts, or the value for none, cannot serve. -/
def unfitParts {α : Type} (s : Setting) (key : Text) (wanted : String) : Except SettingsError α :=
  let found := match s with
    | .scalar .. => "unit value"
    | .array .. => "sequence"
    | .table .. => "map"
  s.unfit key found.toList wanted

/-- The value at a key as a truth value. -/
def toBool (key : Text) (s : Setting) : Except SettingsError Bool :=
  match s with
  | .scalar _ (.bool b) => .ok b
  | .scalar _ (.int n) => .ok (n ≠ 0)
  | .scalar _ (.float x) => .ok (!x.isZero)
  | .scalar _ (.string t) =>
    let word := lowercase t
    if word = ['1'] || trueWords.contains word then .ok true
    else if word = ['0'] || falseWords.contains word then .ok false
    else s.unfit key ("string ".toList ++ Text.quoted word) "a boolean"
  | _ => s.unfitParts key "a boolean"

/-- The value at a key as a number below `2 ^ 64`. -/
def toNat (key : Text) (s : Setting) : Except SettingsError Nat :=
  match s with
  | .scalar _ (.bool b) => .ok b.toNat
  | .scalar _ (.int n) =>
    if 0 ≤ n then .ok n.toNat
    else
      s.unfit key ("64-bit integer `".toList ++ (toString n).toList ++ ['`'])
        "an unsigned 64 bit or less integer"
  | .scalar _ (.float x) => .ok x.toWord
  | .scalar _ (.string t) =>
    let word := lowercase t
    if trueWords.contains word then .ok 1
    else if falseWords.contains word then .ok 0
    else
      match wordOf? t with
      | some n => .ok n
      | none => s.unfit key ("string ".toList ++ Text.quoted t) "an integer"
  | _ => s.unfitParts key "an integer"

/-- The value at a key as a text. -/
def toText (key : Text) (s : Setting) : Except SettingsError Text :=
  match s with
  | .scalar _ (.bool b) => .ok (if b then "true" else "false").toList
  | .scalar _ (.int n) => .ok (toString n).toList
  | .scalar _ (.float x) => .ok x.text
  | .scalar _ (.string t) => .ok t
  | _ => s.unfitParts key "a string"

/-- The key of item `i`. -/
def itemKey (key : Text) (i : Nat) : Text := key ++ '[' :: (toString i).toList ++ [']']

/-- The value at a key as a list of texts. -/
def toTexts (key : Text) (s : Setting) : Except SettingsError (List Text) :=
  match s with
  | .array _ items => items.zipIdx.mapM fun (item, i) => item.toText (itemKey key i)
  | _ => .error (.notList key)

/-- The settings of the group at a key, in the order of their names.  A table gives them by name, an
    array by place. -/
def members (key : Text) (names : List String) (s : Setting) :
    Except SettingsError (List (Text × Option Setting)) :=
  match s with
  | .table _ fields =>
    .ok (names.map fun name => (key ++ '.' :: name.toList, fields.lookup name.toList))
  | .array _ items => .ok (names.zipIdx.map fun (_, i) => (itemKey key i, items[i]?))
  | .scalar .. => .error (.notGroup key)

/-- One setting of a group, read by `f`. -/
def readMember {α : Type} (f : Text → Setting → Except SettingsError α) :
    Option (Text × Option Setting) → Except SettingsError α
  | some (key, some s) => f key s
  | some (key, none) => .error (.lacks key)
  | none => .error (.lacks [])

end Setting

end BlockScript
