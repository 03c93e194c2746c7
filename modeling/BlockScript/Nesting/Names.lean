/-
  Names of blocks: a `begin NAME` and the `end NAME` that closes it should spell the same name.
-/
import BlockScript.Nesting.Match

namespace BlockScript

/-- Which end of a block a name stands at. -/
inductive NameSide where
  | opening
  | closing
  deriving DecidableEq, Repr

/-- The name of a `begin NAME` or `end NAME`, with the token it is part of. -/
structure BlockName where
  side : NameSide
  name : Name
  token : Token
  deriving DecidableEq, Repr

/-- A replacement of the text between two offsets. -/
structure Edit where
  start : Nat
  stop : Nat
  replacement : Text
  deriving DecidableEq, Repr

namespace Edit

/-- The text with the edit made; `none` when its offsets are inverted or miss. -/
def performOn (e : Edit) (t : Text) : Option Text := do
  if e.start ≤ e.stop then
    let (before, rest) ← t.splitAt? e.start
    let (_, after) ← rest.splitAt? (e.stop - e.start)
    return before ++ e.replacement ++ after
  else none

end Edit

namespace Profile

variable (P : Profile)

/-- The side of a block that a token names; `end if` and `end sub` name none. -/
def nameSide (t : Token) : Option NameSide :=
  match t.kind with
  | .beginBlock => some .opening
  | .endThing => if P.endFamily t.nameText = .beginBlock then some .closing else none
  | _ => none

/-- The names of blocks in a text, in order. -/
def blockNames (t : Text) : List BlockName :=
  (P.tokenize t).filterMap fun tok => do
    return ⟨← P.nameSide tok, ← tok.name, tok⟩

/-- The pairs with differing names among tokens that follow one of kind `previous`, while the openers
    `pending` are open, innermost first. -/
def mismatchesFrom (previous : TokenKind) (pending : List Token) : List Token → List Pair
  | [] => []
  | t :: ts =>
    if t.kind = .ifBlock ∧ previous = .elseLine then mismatchesFrom t.kind pending ts
    else
      match t.kind.role with
      | .opener => mismatchesFrom t.kind (t :: pending) ts
      | .closer =>
        match popFirst (P.accepts · t) pending with
        | none => mismatchesFrom t.kind pending ts
        | some (opener, rest) =>
          let others := mismatchesFrom t.kind rest ts
          if P.namesDiffer opener t then ⟨opener, t⟩ :: others else others
      | _ => mismatchesFrom t.kind pending ts

/-- The `begin`/`end` pairs of a text whose names differ, in the order of their ends. -/
def nameMismatches (t : Text) : List Pair := P.mismatchesFrom .edge [] (P.tokenize t)

/-- The edit that gives the partner of the `begin` or `end` at offset `p` the same name. -/
def renameEdit (b : Buffer) (p : Nat) : Option Edit := do
  let t := P.classify b p
  guard (t.kind = .beginBlock ∨ t.kind = .endThing)
  let found ← P.findMatch b p
  guard (found.opener.kind = .beginBlock ∧ P.namesDiffer found.opener found.closer)
  let (source, target) :=
    if found.opener = t then (found.opener, found.closer) else (found.closer, found.opener)
  let name ← source.name
  match target.name with
  | some old => return ⟨old.start, old.stop, name.text⟩
  | none => return ⟨target.stop, target.stop, ' ' :: name.text⟩

end Profile

end BlockScript
