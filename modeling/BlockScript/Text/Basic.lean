/-
  Texts addressed by byte offsets.

  A text is the list of its characters; an offset into it counts bytes of the UTF-8 form.  So an
  offset can miss: it may lie past the end, or inside a character of several bytes.  Everything that
  takes an offset says what it does then: `splitAt?` and `slice?` refuse, `findLine` takes the line
  of the character the offset falls in.

  Lines keep their line break, so the lines of a text put together are the text.
-/
namespace BlockScript

/-- A text: its characters in order. -/
abbrev Text := List Char

namespace Text

/-! ## Lengths and cuts -/

/-- Length in bytes of the UTF-8 form. -/
def size : Text → Nat
  | [] => 0
  | c :: cs => c.utf8Size + size cs

@[simp] theorem size_nil : size [] = 0 := rfl

@[simp] theorem size_cons (c : Char) (cs : Text) : size (c :: cs) = c.utf8Size + size cs := rfl

@[simp] theorem size_append (a b : Text) : size (a ++ b) = size a + size b := by
  induction a with
  | nil => simp
  | cons c cs ih => simp [ih, Nat.add_assoc]

theorem size_take_le (t : Text) (n : Nat) : size (t.take n) ≤ size t := by
  calc size (t.take n) ≤ size (t.take n) + size (t.drop n) := Nat.le_add_right ..
    _ = size t := by rw [← size_append, List.take_append_drop]

theorem size_pos {t : Text} (h : t ≠ []) : 0 < size t := by
  cases t with
  | nil => exact absurd rfl h
  | cons c cs => simp only [size_cons]; have := c.utf8Size_pos; omega

/-- The text before and from offset `p` on; `none` past the end and inside a character. -/
def splitAt? : Text → Nat → Option (Text × Text)
  | cs, 0 => some ([], cs)
  | [], _ + 1 => none
  | c :: cs, p + 1 =>
    if c.utf8Size ≤ p + 1 then
      (splitAt? cs (p + 1 - c.utf8Size)).map fun (before, rest) => (c :: before, rest)
    else none

theorem splitAt?_append {t before rest : Text} {p : Nat} (h : splitAt? t p = some (before, rest)) :
    before ++ rest = t ∧ size before = p := by
  fun_induction splitAt? t p generalizing before rest with
  | case1 => simp_all
  | case2 => simp at h
  | case3 c cs p hc ih =>
    obtain ⟨⟨a, r⟩, hs, he⟩ := Option.map_eq_some_iff.1 h
    simp only [Prod.mk.injEq] at he
    obtain ⟨rfl, rfl⟩ := he
    have := ih hs
    refine ⟨by simp [this.1], ?_⟩
    rw [size_cons, this.2]
    omega
  | case4 => simp at h

/-- Whether a character starts at offset `p`, or the text ends there. -/
def isBoundary (t : Text) (p : Nat) : Bool := (splitAt? t p).isSome

/-- The text between two offsets; `none` when they are inverted or miss. -/
def slice? (t : Text) (start stop : Nat) : Option Text :=
  if start ≤ stop then
    match splitAt? t start with
    | some (_, rest) => (splitAt? rest (stop - start)).map Prod.fst
    | none => none
  else none

/-- The text between two offsets, empty when they are inverted or miss. -/
def slice (t : Text) (start stop : Nat) : Text := (slice? t start stop).getD []

/-! ## Lines -/

/-- The text up to and including its first line break. -/
def firstLine : Text → Text
  | [] => []
  | c :: cs => if c = '\n' then [c] else c :: firstLine cs

/-- The lines of a text, each with its line break; no line follows the last break. -/
def lines : Text → List Text
  | [] => []
  | c :: cs =>
    if c = '\n' then [c] :: lines cs
    else match lines cs with
      | [] => [[c]]
      | l :: ls => (c :: l) :: ls

/-- Walks a text whose first character is at offset `at`, keeping the last line start met that is at
    or before `p`, with the text from there on. -/
def findLine (p : Nat) : Nat → Nat × Text → Text → Nat × Text
  | _, line, [] => line
  | off, line, c :: cs =>
    if off + c.utf8Size ≤ p then
      findLine p (off + c.utf8Size) (if c = '\n' then (off + c.utf8Size, cs) else line) cs
    else line

/-- The start of the line that holds offset `p`, and the text from there on.  Inside a character the
    line is that character's; past the end it is the last line. -/
def lineAt (t : Text) (p : Nat) : Nat × Text := findLine p 0 (0, t) t

/-- The start of the line that holds offset `p`. -/
def lineStart (t : Text) (p : Nat) : Nat := (lineAt t p).1

/-- Where the line break of the line that starts at `start` stands, or the end of the text. -/
def lineEnd (t : Text) (start : Nat) : Nat :=
  start + size ((slice t start (size t)).takeWhile (· ≠ '\n'))

/-! ## Trimming and searching -/

/-- Drops the characters at the end that satisfy `p`. -/
def trimEnd (p : Char → Bool) (t : Text) : Text := (t.reverse.dropWhile p).reverse

/-- Drops the characters at either end that satisfy `p`. -/
def trim (p : Char → Bool) (t : Text) : Text := trimEnd p (t.dropWhile p)

/-- Whether the character ends a line: a line feed or a carriage return. -/
def isLineEnding (c : Char) : Bool := c = '\n' || c = '\r'

/-- Offset of the leftmost occurrence of `word`. -/
def indexOf? (word : Text) : Text → Option Nat
  | [] => if word.isEmpty then some 0 else none
  | c :: cs =>
    if word.isPrefixOf (c :: cs) then some 0 else (indexOf? word cs).map (c.utf8Size + ·)

end Text

/-- A text with its length at hand, as scans ask for it at every step. -/
structure Buffer where
  text : Text
  size : Nat
  size_eq : size = text.size

namespace Buffer

/-- The buffer that holds a text. -/
def ofText (t : Text) : Buffer := ⟨t, t.size, rfl⟩

@[simp] theorem ofText_text (t : Text) : (ofText t).text = t := rfl

@[simp] theorem ofText_size (t : Text) : (ofText t).size = t.size := rfl

end Buffer

end BlockScript
