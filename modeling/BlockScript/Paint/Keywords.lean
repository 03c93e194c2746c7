/-
  Keyword trees: which words are painted how, and which words may follow them.

  A level of a tree gives its literals one colour.  A literal may carry a level of its own for what
  follows it.  A level matches once, right where it is looked for, or anywhere and repeatedly.

  Before use a tree is checked (no literal is empty, no level holds one twice) and its levels are
  ordered so that longer literals come first: then a literal never loses to a shorter one that it
  starts with.
-/
import BlockScript.Text.Basic
import BlockScript.Text.Casing

namespace BlockScript

/-- How a stretch of text is shown. -/
inductive Colour where
  | keyword
  | builtin
  | type
  | function
  | variable
  | constant
  | comment
  | string
  deriving DecidableEq, Repr

namespace Colour

/-- Every colour. -/
def all : List Colour :=
  [.keyword, .builtin, .type, .function, .variable, .constant, .comment, .string]

/-- The colour's name in output. -/
def label : Colour → String
  | .keyword => "keyword"
  | .builtin => "builtin"
  | .type => "type"
  | .function => "function"
  | .variable => "variable"
  | .constant => "constant"
  | .comment => "comment"
  | .string => "string"

end Colour

/-- A painted stretch, from offset `start` up to `stop`. -/
structure Span where
  colour : Colour
  start : Nat
  stop : Nat
  deriving DecidableEq, Repr

/-- The literals of a level in the order they were written, each with the level that follows it. -/
inductive Branches where
  | nil
  /-- a literal that nothing follows -/
  | leaf (literal : Text) (rest : Branches)
  /-- a literal followed by a level with a colour and a mode of its own -/
  | branch (literal : Text) (colour : Colour) (anywhere : Bool) (children rest : Branches)
  deriving DecidableEq, Repr

/-- A level of keywords of one colour; `anywhere` lets it match at any column, repeatedly. -/
structure KeywordTree where
  colour : Colour
  anywhere : Bool
  children : Branches
  deriving DecidableEq, Repr

/-- A literal of a level with the level that follows it. -/
structure Branch where
  literal : Text
  next : Option KeywordTree
  deriving DecidableEq, Repr

namespace Branches

/-- The branches as a list. -/
def toList : Branches → List Branch
  | .nil => []
  | .leaf l rest => ⟨l, none⟩ :: rest.toList
  | .branch l colour anywhere children rest => ⟨l, some ⟨colour, anywhere, children⟩⟩ :: rest.toList

/-- The number of literals, those of levels below included. -/
def count : Branches → Nat
  | .nil => 0
  | .leaf _ rest => rest.count + 1
  | .branch _ _ _ children rest => children.count + rest.count + 1

/-- A level that follows a literal has fewer literals than the level it hangs from. -/
theorem count_lt_of_mem {bs : Branches} {b : Branch} {t : KeywordTree} (h : b ∈ bs.toList)
    (ht : b.next = some t) : t.children.count < bs.count := by
  induction bs with
  | nil => simp [toList] at h
  | leaf l rest ih =>
    rcases List.mem_cons.1 h with rfl | h
    · simp at ht
    · have := ih h
      simp only [count]; omega
  | branch l colour anywhere children rest _ ih =>
    rcases List.mem_cons.1 h with rfl | h
    · obtain rfl : (⟨colour, anywhere, children⟩ : KeywordTree) = t := by simpa using ht
      simp only [count]; omega
    · have := ih h
      simp only [count]; omega

/-- The branches with one more literal, put before the first that is not longer. -/
def insertLeaf (l : Text) : Branches → Branches
  | .nil => .leaf l .nil
  | .leaf l' rest =>
    if l'.size ≤ l.size then .leaf l (.leaf l' rest) else .leaf l' (rest.insertLeaf l)
  | .branch l' colour anywhere children rest =>
    if l'.size ≤ l.size then .leaf l (.branch l' colour anywhere children rest)
    else .branch l' colour anywhere children (rest.insertLeaf l)

/-- The branches with one more literal and its level, put before the first that is not longer. -/
def insertBranch (l : Text) (t : KeywordTree) : Branches → Branches
  | .nil => .branch l t.colour t.anywhere t.children .nil
  | .leaf l' rest =>
    if l'.size ≤ l.size then .branch l t.colour t.anywhere t.children (.leaf l' rest)
    else .leaf l' (rest.insertBranch l t)
  | .branch l' colour anywhere children rest =>
    if l'.size ≤ l.size then
      .branch l t.colour t.anywhere t.children (.branch l' colour anywhere children rest)
    else .branch l' colour anywhere children (rest.insertBranch l t)

/-- Every level with longer literals first; literals of one length keep their order. -/
def byLength : Branches → Branches
  | .nil => .nil
  | .leaf l rest => rest.byLength.insertLeaf l
  | .branch l colour anywhere children rest =>
    rest.byLength.insertBranch l ⟨colour, anywhere, children.byLength⟩

end Branches

/-! ## Checking -/

/-- Why a tree cannot be used. -/
inductive TreeError where
  | duplicate (literal : Text)
  | empty
  deriving DecidableEq, Repr

namespace TreeError

/-- The error in words. -/
def message : TreeError → String
  | .duplicate l => "keyword `" ++ String.ofList l ++ "` appears twice on one level"
  | .empty => "empty keyword literal"

end TreeError

/-- What two literals of a level must not have in common. -/
def literalKey (ignoreCase : Bool) (l : Text) : Text := if ignoreCase then lowercase l else l

namespace Branches

/-- Refuses an empty literal, and one whose key was seen on its level. -/
def checkLiteral (ignoreCase : Bool) (seen : List Text) (l : Text) : Except TreeError Unit :=
  if l.isEmpty then .error .empty
  else if seen.contains (literalKey ignoreCase l) then .error (.duplicate l)
  else .ok ()

/-- Checks the literals from left to right, the level of each right after it. -/
def check (ignoreCase : Bool) (seen : List Text) : Branches → Except TreeError Unit
  | .nil => .ok ()
  | .leaf l rest => do
    checkLiteral ignoreCase seen l
    rest.check ignoreCase (literalKey ignoreCase l :: seen)
  | .branch l _ _ children rest => do
    checkLiteral ignoreCase seen l
    children.check ignoreCase []
    rest.check ignoreCase (literalKey ignoreCase l :: seen)

end Branches

namespace KeywordTree

/-- The number of literals, those of levels below included. -/
def count (t : KeywordTree) : Nat := t.children.count

/-- Whether the top level has no literal. -/
def isEmpty (t : KeywordTree) : Bool := t.children = .nil

/-- A level of literals that nothing follows. -/
def ofWords (colour : Colour) (anywhere : Bool) (words : List String) : KeywordTree :=
  ⟨colour, anywhere, words.foldr (fun w rest => .leaf w.toList rest) .nil⟩

/-- The level with one more literal in front, followed by the level `next`. -/
def nest (t : KeywordTree) (literal : String) (next : KeywordTree) : KeywordTree :=
  { t with children := .branch literal.toList next.colour next.anywhere next.children t.children }

end KeywordTree

end BlockScript
