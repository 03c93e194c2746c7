/-
  The grammar of blocks, and its precedence table.

  Expressions are operands and do not appear: one between two keywords belongs to the instruction next
  to it.  The `;` that ends a loop's header is the separator of the instructions of its body.

  The table is worked out here once.  From then on roles (`TokenKind.role_eq`) and partners
  (`reachOf_blockTable`) are read off and never computed again.
-/
import BlockScript.Grammar.Precedence

namespace BlockScript

namespace Grammar

/-- `KEYWORD instruction CLOSER`. -/
def bracket (opener closer : TokenKind) : Rhs := .terminal opener (.inst (.terminal closer .done))

/-- The blocks of a script. -/
def blocks : Grammar where
  productions := [
    .inst (.terminal .separator (.inst .done)),
    bracket .beginBlock .endThing,
    .terminal .ifBlock (.inst (.optional (.terminal .elseBlock (.inst .done)) (.terminal .endThing .done))),
    .terminal .ifBlock (.inst (.optional (.terminal .elseBlock (.inst .done)) (.terminal .endBare .done))),
    bracket .sub .endThing,
    bracket .sub .endBare,
    .terminal .forLoop (.terminal .assign (.inst (.terminal .toWord (.inst
      (.optional (.terminal .stepWord (.inst .done)) (.terminal .nextVar .done)))))),
    bracket .whileLoop .nextBare,
    bracket .untilLoop .nextBare,
    bracket .gsave .grestore]
  associativity := [(.separator, .assoc)]

end Grammar

/-- The precedence table of blocks. -/
def blockTable : PrecedenceTable :=
  match PrecedenceTable.build Grammar.blocks with
  | .ok t => t
  | .error _ => ⟨[], [], []⟩

/-- The role of a kind among blocks.  Working it out takes a computation of some length, so it is read off
    by `TokenKind.role_eq`. -/
@[irreducible] def TokenKind.role (k : TokenKind) : Role := blockTable.role k

/-! ## The table, worked out once -/

theorem blockTable_eq : blockTable.roles =
    [(.separator, .neutral), (.beginBlock, .opener), (.forLoop, .opener), (.ifBlock, .opener),
      (.ifLine, .neutral), (.sub, .opener), (.untilLoop, .opener), (.whileLoop, .opener),
      (.gsave, .opener), (.endThing, .closer), (.endBare, .closer), (.nextBare, .closer),
      (.nextVar, .closer), (.grestore, .closer), (.elseLine, .neutral), (.elseBlock, .inner),
      (.thenWord, .neutral), (.toWord, .inner), (.stepWord, .inner), (.assign, .inner),
      (.expr, .neutral), (.var, .neutral), (.edge, .neutral)] ∧
    blockTable.reach =
      [(.beginBlock, [.endThing]), (.forLoop, [.nextVar, .toWord, .stepWord, .assign]),
        (.ifBlock, [.endThing, .endBare, .elseBlock]), (.sub, [.endThing, .endBare]),
        (.untilLoop, [.nextBare]), (.whileLoop, [.nextBare]), (.gsave, [.grestore])] := by
  decide +kernel

/-- The role of every kind. -/
theorem TokenKind.role_eq (k : TokenKind) :
    k.role = match k with
      | .beginBlock | .forLoop | .ifBlock | .sub | .untilLoop | .whileLoop | .gsave => .opener
      | .endThing | .endBare | .nextBare | .nextVar | .grestore => .closer
      | .elseBlock | .toWord | .stepWord | .assign => .inner
      | .separator | .ifLine | .elseLine | .thenWord | .expr | .var | .edge => .neutral := by
  unfold role
  rw [PrecedenceTable.role, blockTable_eq.1]
  cases k <;> rfl

/-- The keywords that close or continue each construct. -/
theorem reachOf_blockTable (k : TokenKind) :
    blockTable.reachOf k = match k with
      | .beginBlock => [.endThing]
      | .forLoop => [.nextVar, .toWord, .stepWord, .assign]
      | .ifBlock => [.endThing, .endBare, .elseBlock]
      | .sub => [.endThing, .endBare]
      | .untilLoop | .whileLoop => [.nextBare]
      | .gsave => [.grestore]
      | _ => [] := by
  rw [PrecedenceTable.reachOf, blockTable_eq.2]
  cases k <;> rfl

end BlockScript
