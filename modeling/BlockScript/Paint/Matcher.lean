/-
  Matching keyword trees on a line.

  A literal is present at a column when it stands there, up to case if case is ignored, and where its
  first or last character is a letter, a number or `_`, a word boundary lies on that side.  A level in
  *anywhere* mode takes the first column from the cursor on where a literal is present, and reads
  boundaries in the whole line.  Any other level takes the last column that only spaces and tabs
  separate from the cursor; nothing before the cursor counts for its boundaries.  At that column the
  first literal of the level that is present wins, and the level that follows it goes on from there.

  `Matcher.pattern` is the top level as a regular expression of the same meaning.
-/
import BlockScript.Paint.Keywords
import BlockScript.Text.WordChar

namespace BlockScript

/-- A checked tree whose levels are ordered, and whether it ignores case. -/
structure Matcher where
  tree : KeywordTree
  ignoreCase : Bool

namespace Matcher

/-- The matcher of a tree. -/
def compile (t : KeywordTree) (ignoreCase : Bool) : Except TreeError Matcher := do
  t.children.check ignoreCase []
  return ⟨{ t with children := t.children.byLength }, ignoreCase⟩

end Matcher

/-! ## One literal at one column -/

/-- Whether two characters are the same, up to case if case is ignored. -/
def sameChar (ignoreCase : Bool) (a b : Char) : Bool :=
  if ignoreCase then foldCase a = foldCase b else a = b

/-- Whether a text starts with the literal. -/
def spelledAt (ignoreCase : Bool) : (literal rest : Text) → Bool
  | [], _ => true
  | _ :: _, [] => false
  | a :: as, b :: bs => sameChar ignoreCase a b && spelledAt ignoreCase as bs

/-- Whether the edge of a literal at this character asks for a word boundary. -/
def needsBoundary (c : Char) : Bool := isAlphanumeric c || c = '_'

/-- Whether a word boundary lies between two characters, where the ends of a line count as no word. -/
def wordBoundary (left right : Option Char) : Bool := left.any isWordChar != right.any isWordChar

/-- Whether the literal is present at the front of `rest`, which follows the character `before`. -/
def presentAt (ignoreCase : Bool) (before : Option Char) (rest literal : Text) : Bool :=
  !literal.isEmpty && spelledAt ignoreCase literal rest &&
    (!literal.head?.any needsBoundary || wordBoundary before rest.head?) &&
    (!literal.getLast?.any needsBoundary ||
      wordBoundary (rest.take literal.length).getLast? (rest.drop literal.length).head?)

/-! ## One level from a cursor -/

/-- A literal found on a line, with the offsets where it starts and ends. -/
structure Hit where
  start : Nat
  stop : Nat
  branch : Branch

/-- The first of the branches that is present at offset `p`, where `rest` follows `before`. -/
def hitHere (ignoreCase : Bool) (bs : List Branch) (before : Option Char) (p : Nat) (rest : Text) :
    Option Hit :=
  (bs.find? fun b => presentAt ignoreCase before rest b.literal).map fun b =>
    ⟨p, p + Text.size (rest.take b.literal.length), b⟩

/-- The hit at the first column where a branch is present. -/
def hitAnywhere (ignoreCase : Bool) (bs : List Branch) (before : Option Char) (p : Nat) :
    Text → Option Hit
  | [] => none
  | c :: cs =>
    match hitHere ignoreCase bs before p (c :: cs) with
    | some hit => some hit
    | none => hitAnywhere ignoreCase bs (some c) (p + c.utf8Size) cs

/-- The hit at the last column reached over spaces and tabs where a branch is present. -/
def hitAfterBlanks (ignoreCase : Bool) (bs : List Branch) (before : Option Char) (p : Nat) :
    Text → Option Hit
  | [] => none
  | c :: cs =>
    match if c = ' ' ∨ c = '\t' then hitAfterBlanks ignoreCase bs (some c) (p + c.utf8Size) cs
      else none with
    | some hit => some hit
    | none => hitHere ignoreCase bs before p (c :: cs)

namespace KeywordTree

/-- The hit of a level on a line from the offset `cursor` on. -/
def find (t : KeywordTree) (ignoreCase : Bool) (line : Text) (cursor : Nat) : Option Hit :=
  match line.splitAt? cursor with
  | none => none
  | some (before, rest) =>
    if t.anywhere then hitAnywhere ignoreCase t.children.toList before.getLast? cursor rest
    else hitAfterBlanks ignoreCase t.children.toList none cursor rest

end KeywordTree

/-! ## What a hit is -/

/-- A hit takes a branch of the level and ends after the offset `p`, but not after the text that
    starts at `p`. -/
structure Hit.Within (h : Hit) (bs : List Branch) (p : Nat) (rest : Text) : Prop where
  mem : h.branch ∈ bs
  lt_stop : p < h.stop
  stop_le : h.stop ≤ p + rest.size

theorem spelledAt_ne_nil {ignoreCase : Bool} {l rest : Text} (hl : l ≠ [])
    (h : spelledAt ignoreCase l rest) : rest ≠ [] := by
  cases l with
  | nil => exact absurd rfl hl
  | cons a as =>
    cases rest with
    | nil => simp [spelledAt] at h
    | cons b bs => simp

theorem hitHere_within {ignoreCase : Bool} {bs : List Branch} {before : Option Char} {p : Nat}
    {rest : Text} {h : Hit} (he : hitHere ignoreCase bs before p rest = some h) :
    h.Within bs p rest := by
  unfold hitHere at he
  obtain ⟨b, hb, rfl⟩ := Option.map_eq_some_iff.1 he
  have hp := List.find?_some hb
  simp only [presentAt, Bool.and_eq_true, Bool.not_eq_true', List.isEmpty_eq_false_iff] at hp
  have hl : b.literal ≠ [] := hp.1.1.1
  have hr : rest ≠ [] := spelledAt_ne_nil hl hp.1.1.2
  refine ⟨List.mem_of_find?_eq_some hb, ?_, ?_⟩
  · have : 0 < Text.size (rest.take b.literal.length) := Text.size_pos (by simp [hl, hr])
    show p < p + _
    omega
  · show p + _ ≤ p + _
    have := Text.size_take_le rest b.literal.length
    omega

theorem hitAnywhere_within {ignoreCase : Bool} {bs : List Branch} {rest : Text} {h : Hit} :
    ∀ {before : Option Char} {p : Nat}, hitAnywhere ignoreCase bs before p rest = some h →
      h.Within bs p rest := by
  induction rest with
  | nil => intro before p he; simp [hitAnywhere] at he
  | cons c cs ih =>
    intro before p he
    rw [hitAnywhere] at he
    split at he
    · rename_i hit hh
      exact hitHere_within (he ▸ hh)
    · have w := ih he
      refine ⟨w.mem, ?_, ?_⟩
      · have := w.lt_stop; omega
      · have := w.stop_le; simp only [Text.size_cons]; omega

theorem hitAfterBlanks_within {ignoreCase : Bool} {bs : List Branch} {rest : Text} {h : Hit} :
    ∀ {before : Option Char} {p : Nat}, hitAfterBlanks ignoreCase bs before p rest = some h →
      h.Within bs p rest := by
  induction rest with
  | nil => intro before p he; simp [hitAfterBlanks] at he
  | cons c cs ih =>
    intro before p he
    rw [hitAfterBlanks] at he
    split at he
    · rename_i hit hh
      split at hh
      · have w := ih (he ▸ hh)
        refine ⟨w.mem, ?_, ?_⟩
        · have := w.lt_stop; omega
        · have := w.stop_le; simp only [Text.size_cons]; omega
      · simp at hh
    · exact hitHere_within he

/-- A hit of a level takes one of its branches, ends after the cursor, and lies on the line. -/
theorem KeywordTree.find_within {t : KeywordTree} {ignoreCase : Bool} {line : Text} {cursor : Nat}
    {h : Hit} (he : t.find ignoreCase line cursor = some h) :
    h.branch ∈ t.children.toList ∧ cursor < h.stop ∧ h.stop ≤ line.size := by
  unfold find at he
  split at he
  · simp at he
  · rename_i before rest hs
    obtain ⟨hl, hp⟩ := Text.splitAt?_append hs
    have w : h.Within t.children.toList cursor rest := by
      split at he
      · exact hitAnywhere_within he
      · exact hitAfterBlanks_within he
    have := w.stop_le
    refine ⟨w.mem, w.lt_stop, ?_⟩
    rw [← hl, Text.size_append]
    omega

/-! ## A whole line -/

namespace KeywordTree

/-- Matches a level on a line from the offset `cursor` on: the spans found, and where the cursor
    ends. -/
def run (t : KeywordTree) (ignoreCase : Bool) (line : Text) (cursor : Nat) : List Span × Nat :=
  match _h : t.find ignoreCase line cursor with
  | none => ([], cursor)
  | some hit =>
    let here : Span := ⟨t.colour, hit.start, hit.stop⟩
    let (below, after) :=
      match _n : hit.branch.next with
      | some next => next.run ignoreCase line hit.stop
      | none => ([], hit.stop)
    if t.anywhere then
      let (others, last) := t.run ignoreCase line (max hit.stop after)
      (here :: below ++ others, last)
    else (here :: below, after)
termination_by (t.children.count, line.size - cursor)
decreasing_by
  · exact Prod.Lex.left _ _ (Branches.count_lt_of_mem (find_within _h).1 _n)
  · have := find_within _h
    exact Prod.Lex.right _ (by omega)

end KeywordTree

/-- The spans moved by `offset`. -/
def Span.shift (offset : Nat) (s : Span) : Span := ⟨s.colour, offset + s.start, offset + s.stop⟩

namespace Text

/-- The rows of a text whose first character is at offset `p`: lines without their breaks, with their
    offsets.  A row follows every line break, also the last. -/
def rowsFrom (p : Nat) : Text → List (Nat × Text)
  | [] => [(p, [])]
  | c :: cs =>
    if c = '\n' then (p, []) :: rowsFrom (p + c.utf8Size) cs
    else match rowsFrom (p + c.utf8Size) cs with
      | [] => [(p, [c])]
      | (_, row) :: rows => (p, c :: row) :: rows

/-- The rows that a range of offsets touches, ends included, without carriage returns at their ends.
    An inverted range counts as empty, and ends past the text as its end. -/
def rowsIn (t : Text) (start stop : Nat) : List (Nat × Text) :=
  let stop := min stop t.size
  let start := min start stop
  ((rowsFrom 0 t).filter fun (p, row) => start ≤ p + size row && p ≤ stop).map
    fun (p, row) => (p, trimEnd (· = '\r') row)

end Text

namespace Matcher

/-- The spans of a row that starts at `offset`. -/
def paintRow (m : Matcher) (offset : Nat) (row : Text) : List Span :=
  (m.tree.run m.ignoreCase row 0).1.map (Span.shift offset)

/-- The spans between two offsets. -/
def paint (m : Matcher) (t : Text) (start stop : Nat) : List Span :=
  ((t.rowsIn start stop).flatMap fun (p, row) => m.paintRow p row).filter fun s =>
    start ≤ s.start && s.stop ≤ stop

/-! ## The top level as a regular expression -/

/-- The characters that stand for something else in a regular expression. -/
def metaChars : Text :=
  ['\\', '.', '+', '*', '?', '(', ')', '|', '[', ']', '\x7b', '\x7d', '^', '$', '#', '&', '-', '~']

/-- The literal with its special characters escaped. -/
def escape (l : Text) : Text := l.flatMap fun c => if metaChars.contains c then ['\\', c] else [c]

/-- A boundary assertion where the character asks for one. -/
def boundary (c : Option Char) : String := if c.any needsBoundary then "\\b" else ""

/-- The group of the literal with the given number. -/
def group (n : Nat) (l : Text) : String :=
  "(?P<k" ++ toString n ++ ">" ++ boundary l.head? ++ String.ofList (escape l) ++
    boundary l.getLast? ++ ")"

/-- The top level as a regular expression. -/
def pattern (m : Matcher) : String :=
  let literals := m.tree.children.toList.map Branch.literal
  let groups := literals.zipIdx.map fun (l, n) => group n l
  (if m.ignoreCase then "(?i)" else "") ++ (if m.tree.anywhere then "" else "^[ \\t]*") ++
    "(?:" ++ String.intercalate "|" groups ++ ")"

end Matcher

end BlockScript
