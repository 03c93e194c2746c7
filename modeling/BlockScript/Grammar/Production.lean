/-
  Block grammars: what an instruction may be made of.

  There is one nonterminal, the instruction.  A right-hand side strings together keywords,
  instructions and optional groups; `expand` lists the plain right-hand sides it stands for.
-/
import BlockScript.Token

namespace BlockScript

/-- A right-hand side, read from the left. -/
inductive Rhs where
  | done
  /-- a keyword, then the rest -/
  | terminal (kind : TokenKind) (rest : Rhs)
  /-- an instruction, then the rest -/
  | inst (rest : Rhs)
  /-- a group that may be left out, then the rest -/
  | optional (group rest : Rhs)
  deriving DecidableEq, Repr

/-- A symbol of a plain right-hand side. -/
inductive Symbol where
  | terminal (kind : TokenKind)
  | inst
  deriving DecidableEq, Repr

namespace Rhs

/-- The plain right-hand sides: each group is taken or left out, inner groups only where the outer
    one is taken.  Choices of earlier groups vary fastest, and leaving a group out comes first. -/
def expand : Rhs → List (List Symbol)
  | .done => [[]]
  | .terminal k rest => rest.expand.map (.terminal k :: ·)
  | .inst rest => rest.expand.map (.inst :: ·)
  | .optional group rest => rest.expand.flatMap fun tail => ([] :: group.expand).map (· ++ tail)

end Rhs

/-- How a keyword that both yields to itself and takes precedence over itself groups. -/
inductive Associativity where
  | left
  | right
  /-- either way; grouped to the left -/
  | assoc
  deriving DecidableEq, Repr

/-- The productions of the instruction, and how keywords group with themselves. -/
structure Grammar where
  productions : List Rhs
  associativity : List (TokenKind × Associativity)

namespace Grammar

/-- All plain right-hand sides of the instruction. -/
def expansions (g : Grammar) : List (List Symbol) := g.productions.flatMap Rhs.expand

end Grammar

end BlockScript
