/-
  The profile of a script: its dialect, its layout, and how far questions about it may look.

  Here stand the two judgements all structural questions share: whether a keyword belongs to a
  construct, and whether a `begin`/`end` pair spells its name differently.
-/
import BlockScript.Grammar.Blocks
import BlockScript.Scanner

namespace BlockScript

/-- How lines are indented, and how many line visits one question may make (0 lifts the bound). -/
structure Layout where
  indentWidth : Nat := 4
  useTabs : Bool := false
  maxVisits : Nat := 20000
  deriving DecidableEq

/-- The dialect and layout of a script. -/
structure Profile where
  dialect : Dialect := {}
  layout : Layout := {}
  deriving DecidableEq

namespace Profile

/-- A scanner for one question. -/
def scanner (P : Profile) : Scanner :=
  { budget := if P.layout.maxVisits = 0 then none else some P.layout.maxVisits }

/-- The token at or after offset `p`. -/
def classify (P : Profile) (b : Buffer) (p : Nat) : Token := (P.scanner.next P.dialect b p).1

/-- The tokens of a text. -/
def tokenize (P : Profile) (t : Text) : List Token := P.dialect.tokenize t

/-- The opener that `end WORD` belongs to. -/
def endFamily (P : Profile) (word : Text) : TokenKind :=
  if P.dialect.isKeyword word .ifWord then .ifBlock
  else if P.dialect.isKeyword word .subWord then .sub
  else .beginBlock

/-- Whether `closer` closes, or as an inner keyword continues, the construct `opener` opens. -/
def accepts (P : Profile) (opener closer : Token) : Bool :=
  blockTable.closes closer.kind opener.kind &&
    (closer.kind ≠ .endThing || opener.kind = P.endFamily closer.nameText)

/-- Whether a `begin`/`end` pair spells its name differently; a name left out differs. -/
def namesDiffer (P : Profile) (opener closer : Token) : Bool :=
  opener.kind = .beginBlock && closer.kind = .endThing &&
    match opener.name, closer.name with
    | some n, some n' => !P.dialect.spells n.text n'.text
    | _, _ => true

end Profile

end BlockScript
