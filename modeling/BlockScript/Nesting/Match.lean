/-
  The keyword that belongs to the one at an offset, and the constructs open there.
-/
import BlockScript.Nesting.Search

namespace BlockScript

/-- An opener with the closer or inner keyword that belongs to it. -/
structure Pair where
  opener : Token
  closer : Token
  deriving DecidableEq, Repr

/-- A construct that is open at an offset. -/
structure OpenConstruct where
  kind : TokenKind
  start : Nat
  deriving DecidableEq, Repr

namespace Token

/-- The token read as the `else` of a block `if`. -/
def asElse (t : Token) : Token := ⟨.elseBlock, t.start, t.stop, none⟩

/-- The construct that the token opens. -/
def construct (t : Token) : OpenConstruct := ⟨t.kind, t.start⟩

end Token

namespace Profile

variable (P : Profile) (b : Buffer)

/-- The pair that the keyword at or after offset `p` belongs to. -/
def findMatch (p : Nat) : Option Pair :=
  let (t, s) := P.scanner.next P.dialect b p
  let (continues, s) := P.continuesIf b s t
  if continues then (P.openerOf b s t.asElse).1.map (⟨·, t⟩)
  else
    match t.kind.role with
    | .opener => (P.closerOf b s t).1.map (⟨t, ·⟩)
    | .neutral => none
    | _ =>
      let (flat, s) := if t.kind = .elseBlock then P.isFlatElse b s t else (false, s)
      if flat then none else (P.openerOf b s t).1.map (⟨·, t⟩)

/-- Where the keyword stands that belongs to the one at or after offset `p`. -/
def matching (p : Nat) : Option Nat :=
  (P.findMatch b p).map fun found =>
    if found.opener = P.classify b p then found.closer.start else found.opener.start

/-- The constructs open at offset `p`, outermost first. -/
def context (p : Nat) : List OpenConstruct :=
  (P.allUnclosedBefore b P.scanner {} (min p b.size) []).map Token.construct

end Profile

end BlockScript
