/-
  TOML documents.

  A document is a list of statements, one a line: a header opens a table, a pair gives a key of the
  open table a value.  Every table is written out once: a header may complete a table that was only
  implied by a longer header, dotted keys may add to a table that dotted keys made, and nothing else
  is opened twice.
-/
import BlockScript.Settings.Toml.Literal

namespace BlockScript

namespace Toml

/-! ## Tables being written -/

/-- How a table came about. -/
inductive Making where
  /-- by its own header -/
  | header
  /-- by a header of a table in it -/
  | implied
  /-- by a dotted key -/
  | dotted
  deriving DecidableEq, Repr

/-- What a key stands for while the document is read. -/
inductive Node where
  | value (v : Setting)
  | table (making : Making) (fields : List (Text × Node))
  /-- a table for each of its `[[headers]]`, which open the last of them -/
  | tables (rows : List (List (Text × Node)))

namespace Node

/-- The fields with `key` set to a node. -/
def put (key : Text) (n : Node) : List (Text × Node) → List (Text × Node)
  | [] => [(key, n)]
  | (k, old) :: rest => if k = key then (key, n) :: rest else (k, old) :: put key n rest

/-- What `f` makes of the fields of the table that a path leads to.  `dotted` says that the path is
    that of a dotted key, which enters no table with a header of its own. -/
def within (dotted : Bool) (f : Making → List (Text × Node) → Option (Making × List (Text × Node))) :
    List Text → Making → List (Text × Node) → Option (Making × List (Text × Node))
  | [], making, fields => f making fields
  | key :: path, making, fields =>
    match fields.lookup key with
    | none =>
      (within dotted f path (if dotted then .dotted else .implied) []).map fun (m, inner) =>
        (making, put key (.table m inner) fields)
    | some (.value _) => none
    | some (.table m inner) =>
      if dotted && m = .header then none
      else
        (within dotted f path m inner).map fun (m, inner) => (making, put key (.table m inner) fields)
    | some (.tables rows) =>
      (within dotted f path .header (rows.getLast?.getD [])).map fun (_, inner) =>
        (making, put key (.tables (rows.dropLast ++ [inner])) fields)

/-- Gives the dotted key a value, in a table. -/
def assign (path : List Text) (v : Setting) (making : Making) (fields : List (Text × Node)) :
    Option (Making × List (Text × Node)) :=
  let inner := path.dropLast
  let key := path.getLast?.getD []
  within true
    (fun m fs =>
      if decide (m = .dotted) = inner.isEmpty then none
      else if (fs.lookup key).isSome then none
      else some (m, fs ++ [(key, .value v)]))
    inner making fields

/-- Opens a table under its header. -/
def openTable (path : List Text) (making : Making) (fields : List (Text × Node)) :
    Option (Making × List (Text × Node)) :=
  let key := path.getLast?.getD []
  within false
    (fun m fs =>
      match fs.lookup key with
      | none => some (m, fs ++ [(key, .table .header [])])
      | some (.table .implied inner) => some (m, put key (.table .header inner) fs)
      | some _ => none)
    path.dropLast making fields

/-- Opens a further table of a list of tables. -/
def openRow (path : List Text) (making : Making) (fields : List (Text × Node)) :
    Option (Making × List (Text × Node)) :=
  let key := path.getLast?.getD []
  within false
    (fun m fs =>
      match fs.lookup key with
      | none => some (m, fs ++ [(key, .tables [[]])])
      | some (.tables rows) => some (m, put key (.tables (rows ++ [[]])) fs)
      | some _ => none)
    path.dropLast making fields

mutual
/-- The finished value of a node. -/
def toSetting (origin : Option Text) : Node → Setting
  | .value v => v
  | .table _ fields => .table origin (toFields origin fields)
  | .tables rows => .array origin (toRows origin rows)

/-- The finished fields of a table. -/
def toFields (origin : Option Text) : List (Text × Node) → List (Text × Setting)
  | [] => []
  | (key, n) :: rest => (key, toSetting origin n) :: toFields origin rest

/-- The finished tables of a list of tables. -/
def toRows (origin : Option Text) : List (List (Text × Node)) → List Setting
  | [] => []
  | fields :: rest => .table origin (toFields origin fields) :: toRows origin rest
end

end Node

/-! ## Keys and values -/

/-- A character of a key without quotes. -/
def isBareKeyChar (c : Char) : Bool := c.isAlphanum || c = '_' || c = '-'

/-- The key without dots that the text starts with, and the text after it. -/
def simpleKey? (t : Text) : Option (Text × Text) :=
  match t with
  | '"' :: t => basicString t
  | '\'' :: t => literalString t
  | t =>
    let key := t.takeWhile isBareKeyChar
    if key.isEmpty then none else some (key, t.drop key.length)

/-- How deep a value may lie: the most arrays and inline tables in each other, and the most parts of a
    key. -/
def maxDepth : Nat := 79

/-- The key that the text starts with, of at most `fuel` parts, and the text after it and the blanks
    that follow. -/
def key? : Nat → Text → Option (List Text × Text)
  | 0, _ => none
  | fuel + 1, t => do
    let (part, t) ← simpleKey? t
    match skipSpaces t with
    | '.' :: t =>
      let (parts, t) ← key? fuel (skipSpaces t)
      some (part :: parts, t)
    | t => some ([part], t)

/-- The pair that the text starts with, its value read by `value`, and the text after it. -/
def pair? (value : Text → Option (Setting × Text)) (t : Text) :
    Option ((List Text × Setting) × Text) := do
  let (path, t) ← key? maxDepth t
  match t with
  | '=' :: t =>
    let (v, t) ← value (skipSpaces t)
    some ((path, v), t)
  | _ => none

/-- The items of an array up to its closing bracket, at most `fuel` of them, and the text after
    it. -/
def items? (value : Text → Option (Setting × Text)) : Nat → Text → Option (List Setting × Text)
  | 0, _ => none
  | fuel + 1, t =>
    match skipLines false t with
    | ']' :: t => some ([], t)
    | t => do
      let (v, t) ← value t
      match skipLines false t with
      | ']' :: t => some ([v], t)
      | ',' :: t =>
        let (vs, t) ← items? value fuel t
        some (v :: vs, t)
      | _ => none

/-- The pairs of an inline table up to its closing brace, at most `fuel` of them, and the text after
    it. -/
def pairs? (value : Text → Option (Setting × Text)) :
    Nat → Text → Option (List (List Text × Setting) × Text)
  | 0, _ => none
  | fuel + 1, t => do
    let (p, t) ← pair? value (skipSpaces t)
    match skipSpaces t with
    | '\x7d' :: t => some ([p], t)
    | ',' :: t =>
      let (ps, t) ← pairs? value fuel t
      some (p :: ps, t)
    | _ => none

/-- The fields of the table that pairs write. -/
def fieldsOf? (pairs : List (List Text × Setting)) : Option (List (Text × Node)) :=
  pairs.foldlM
    (fun fields (path, v) => (Node.assign path v .header fields).map fun (_, fields) => fields) []

/-- The value that the text starts with, and the text after it; arrays and inline tables lie at most
    `depth` deep in it. -/
def value? (origin : Option Text) (depth : Nat) (t : Text) : Option (Setting × Text) :=
  match depth, t with
  | 0, '[' :: _ => none
  | 0, '\x7b' :: _ => none
  | depth + 1, '[' :: t =>
    (items? (value? origin depth) (t.length + 1) t).map fun (vs, t) => (.array origin vs, t)
  | depth + 1, '\x7b' :: t =>
    match skipSpaces t with
    | '\x7d' :: t => some (.table origin [], t)
    | t => do
      let (pairs, t) ← pairs? (value? origin depth) (t.length + 1) t
      let fields ← fieldsOf? pairs
      some (.table origin (Node.toFields origin fields), t)
  | _, t =>
    match string? t with
    | some (s, t) => some (.scalar origin (.string s), t)
    | none => (plainValue? t).map fun (s, t) => (.scalar origin s, t)

/-! ## Statements -/

/-- A line of a document. -/
inductive Statement where
  | pair (path : List Text) (v : Setting)
  | table (path : List Text)
  | row (path : List Text)

/-- The statement that the text starts with, and the text after it. -/
def statement? (origin : Option Text) (t : Text) : Option (Statement × Text) :=
  match t with
  | '[' :: '[' :: t => do
    let (path, t) ← key? maxDepth (skipSpaces t)
    match t with
    | ']' :: ']' :: t => some (.row path, t)
    | _ => none
  | '[' :: t => do
    let (path, t) ← key? maxDepth (skipSpaces t)
    match t with
    | ']' :: t => some (.table path, t)
    | _ => none
  | t => do
    let ((path, v), t) ← pair? (value? origin maxDepth) t
    some (.pair path v, t)

/-- The statements of a text, which has at most `fuel` lines. -/
def statements? (origin : Option Text) : Nat → Text → Option (List Statement)
  | 0, t => if t.isEmpty then some [] else none
  | fuel + 1, t =>
    match skipSpaces t with
    | [] => some []
    | t =>
      match endLine? t with
      | some rest => statements? origin fuel rest
      | none => do
        let (s, t) ← statement? origin t
        let rest ← endLine? t
        let more ← statements? origin fuel rest
        some (s :: more)

/-! ## Documents -/

/-- A document as far as it is read: its fields, and the header that is open. -/
structure Document where
  fields : List (Text × Node) := []
  header : List Text := []

/-- Takes in one statement. -/
def Document.add (d : Document) : Statement → Option Document
  | .pair path v =>
    (Node.within false (Node.assign path v) d.header .header d.fields).map fun (_, fields) =>
      { d with fields := fields }
  | .table path => (Node.openTable path .header d.fields).map fun (_, fields) => ⟨fields, path⟩
  | .row path => (Node.openRow path .header d.fields).map fun (_, fields) => ⟨fields, path⟩

/-- The fields that a text writes, which was read from the given file. -/
def read (origin : Option Text) (t : Text) : Option (List (Text × Setting)) := do
  let t := match t with
    | '\ufeff' :: t => t
    | t => t
  let statements ← statements? origin (t.length + 1) t
  let d ← statements.foldlM Document.add {}
  some (Node.toFields origin d.fields)

end Toml

end BlockScript
