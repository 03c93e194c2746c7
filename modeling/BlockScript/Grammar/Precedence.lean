/-
  Operator precedence between keywords.

  For two keywords that may meet, the table says whether the left one yields to the right one (`<`),
  both belong to one construct (`=`), or the left one takes precedence (`>`).  With an instruction
  written `I` and right-hand sides fully expanded:

      a b   or   a I b     a = b
      a I                  a < every keyword an instruction can begin with
      I b                  every keyword an instruction can end with > b

  An instruction can begin with a keyword that is the first symbol of a right-hand side, or the second
  one after an instruction; likewise at the end.  Two relations for one pair are a conflict, unless it
  is a keyword with itself, `=` is not among them, and the grammar says how the keyword groups.

  Roles follow from `=`: an opener has a partner on its right only, a closer on its left only, an
  inner keyword on both.  An opener reaches the keywords at the end of a chain of `=` from it.
-/
import BlockScript.Grammar.Production

namespace BlockScript

/-- How the left one of two keywords stands to the right one. -/
inductive Relation where
  | yields
  | equal
  | takes
  deriving DecidableEq, Repr

namespace Relation

/-- Every relation; conflicts list them in this order. -/
def all : List Relation := [.yields, .equal, .takes]

/-- The relation as listings show it. -/
def symbol : Relation → String
  | .yields => "<"
  | .equal => "="
  | .takes => ">"

end Relation

/-- What a keyword does in a construct. -/
inductive Role where
  | opener
  | inner
  | closer
  | neutral
  deriving DecidableEq, Repr

namespace Grammar

/-! ## The relations a grammar gives -/

/-- The keyword at the front, past at most one instruction. -/
def leading : List Symbol → Option TokenKind
  | .terminal k :: _ => some k
  | .inst :: .terminal k :: _ => some k
  | _ => none

/-- The keywords an instruction can begin with. -/
def firsts (es : List (List Symbol)) : List TokenKind :=
  TokenKind.all.filter fun k => es.any fun e => leading e = some k

/-- The keywords an instruction can end with. -/
def lasts (es : List (List Symbol)) : List TokenKind :=
  TokenKind.all.filter fun k => es.any fun e => leading e.reverse = some k

/-- Whether `p` holds of some rest of the list. -/
def someTail (p : List Symbol → Bool) : List Symbol → Bool
  | [] => false
  | s :: ss => p (s :: ss) || someTail p ss

/-- The keywords that stand side by side, or with one instruction between them. -/
def neighbours : List Symbol → List (TokenKind × TokenKind)
  | [] => []
  | .inst :: ss => neighbours ss
  | .terminal a :: ss =>
    match leading ss with
    | some b => (a, b) :: neighbours ss
    | none => neighbours ss

/-- Whether `a` and `b` stand side by side, or with one instruction between them. -/
def meets (a b : TokenKind) (ss : List Symbol) : Bool := (neighbours ss).contains (a, b)

/-- Whether `a` stands before an instruction. -/
def beforeInst (a : TokenKind) : List Symbol → Bool :=
  someTail fun
    | .terminal x :: .inst :: _ => x = a
    | _ => false

/-- Whether `b` stands after an instruction. -/
def afterInst (b : TokenKind) : List Symbol → Bool :=
  someTail fun
    | .inst :: .terminal y :: _ => y = b
    | _ => false

/-- Whether expanded right-hand sides put `a` and `b` in the relation `r`. -/
def holds (es : List (List Symbol)) (a b : TokenKind) : Relation → Bool
  | .yields => es.any (beforeInst a) && (firsts es).contains b
  | .equal => es.any (meets a b)
  | .takes => es.any (afterInst b) && (lasts es).contains a

/-- The relations of a pair. -/
def relationsOf (es : List (List Symbol)) (a b : TokenKind) : List Relation :=
  Relation.all.filter (holds es a b)

/-- Two keywords with more than one relation. -/
structure Conflict where
  left : TokenKind
  right : TokenKind
  relations : List Relation
  deriving DecidableEq, Repr

namespace Conflict

/-- The conflict in words. -/
def message (c : Conflict) : String :=
  "precedence conflict between `" ++ c.left.symbol ++ "` and `" ++ c.right.symbol ++ "`: " ++
    String.intercalate " " (c.relations.map Relation.symbol)

end Conflict

/-- The one relation of a pair, if it has any. -/
def resolve (g : Grammar) (a b : TokenKind) (rs : List Relation) :
    Except Conflict (Option Relation) :=
  match rs with
  | [] => .ok none
  | [r] => .ok (some r)
  | rs =>
    match g.associativity.find? (·.1 = a) with
    | some (_, grouping) =>
      if a = b && !rs.contains .equal then
        .ok (some (if grouping = .right then .yields else .takes))
      else .error ⟨a, b, rs⟩
    | none => .error ⟨a, b, rs⟩

end Grammar

/-! ## The table -/

/-- Relations in the order of their pairs, the role of every kind, and what openers reach. -/
structure PrecedenceTable where
  relations : List ((TokenKind × TokenKind) × Relation)
  roles : List (TokenKind × Role)
  reach : List (TokenKind × List TokenKind)

namespace PrecedenceTable

/-- All pairs of kinds, in order. -/
def pairs : List (TokenKind × TokenKind) :=
  TokenKind.all.flatMap fun a => TokenKind.all.map fun b => (a, b)

/-- The role of `k` when `eq` tells the pairs related by `=`. -/
def roleOf (eq : TokenKind → TokenKind → Bool) (k : TokenKind) : Role :=
  match TokenKind.all.any (eq · k), TokenKind.all.any (eq k ·) with
  | false, true => .opener
  | true, true => .inner
  | true, false => .closer
  | false, false => .neutral

/-- The kinds at the end of a chain of one to `n + 1` steps of `eq` from `k`. -/
def chain (eq : TokenKind → TokenKind → Bool) (k : TokenKind) : Nat → List TokenKind
  | 0 => TokenKind.all.filter (eq k)
  | n + 1 =>
    let seen := chain eq k n
    TokenKind.all.filter fun b => seen.contains b || seen.any (eq · b)

/-- The relations of a grammar, or the first pair in conflict. -/
def relationsOf (g : Grammar) : Except Grammar.Conflict (List ((TokenKind × TokenKind) × Relation)) := do
  let es := g.expansions
  let found ← pairs.mapM fun (a, b) => do
    return (← g.resolve a b (Grammar.relationsOf es a b)).map ((a, b), ·)
  return found.filterMap id

/-- The table with the given relations. -/
def ofRelations (relations : List ((TokenKind × TokenKind) × Relation)) : PrecedenceTable :=
  let partners := (relations.filter (·.2 = .equal)).map (·.1)
  let eq (a b : TokenKind) : Bool := partners.contains (a, b)
  let roles := TokenKind.all.map fun k => (k, roleOf eq k)
  let openers := roles.filter (·.2 = .opener)
  ⟨relations, roles, openers.map fun (k, _) => (k, chain eq k TokenKind.all.length)⟩

/-- The table of a grammar, or the first pair in conflict. -/
def build (g : Grammar) : Except Grammar.Conflict PrecedenceTable := do
  return ofRelations (← relationsOf g)

/-- How `left` stands to `right`. -/
def relation (t : PrecedenceTable) (left right : TokenKind) : Option Relation :=
  t.relations.lookup (left, right)

/-- The role of a kind. -/
def role (t : PrecedenceTable) (k : TokenKind) : Role := (t.roles.lookup k).getD .neutral

/-- The closers and inner keywords of the constructs that `opener` opens. -/
def reachOf (t : PrecedenceTable) (opener : TokenKind) : List TokenKind :=
  (t.reach.lookup opener).getD []

/-- Whether `closer` closes or continues a construct that `opener` opens. -/
def closes (t : PrecedenceTable) (closer opener : TokenKind) : Bool :=
  (t.reachOf opener).contains closer

/-- The keywords that end a construct that `opener` opens. -/
def closersOf (t : PrecedenceTable) (opener : TokenKind) : List TokenKind :=
  (t.reachOf opener).filter (t.role · = .closer)

end PrecedenceTable

end BlockScript
