/-
  Lexemes: a line cut into words, symbols, strings and separators.

  A line is cut piece by piece from the left.  `cut` looks at the front of the text and says what
  stands there and how many characters it takes; `pieces` repeats it up to and including the line
  break.  Put together again the pieces are the line (`pieces_text`), so the end of a line never
  depends on the dialect.  Blanks and comments are pieces too; `place` drops them and gives the rest
  their offsets.

  In a string a doubled quote stands for one quote, so a string ends at a quote that no second one
  follows, or else where the line ends.
-/
import BlockScript.CharClass

namespace BlockScript

/-- What a piece of a line is. -/
inductive PieceKind where
  | blank
  | comment
  | word
  | symbol
  /-- a `=` that is not part of `==` -/
  | equals
  | string
  | semicolon
  | newline
  deriving DecidableEq, Repr

/-- A stretch of a line. -/
structure Piece where
  kind : PieceKind
  text : Text
  deriving DecidableEq, Repr

namespace Dialect

/-! ## Cutting the front off a text -/

/-- How many characters of class `k` follow the character `before`. -/
def run (d : Dialect) (k : CharClass) (before : Char) : Text → Nat
  | [] => 0
  | c :: cs => if d.classHere (some before) (c :: cs) = k then d.run k c cs + 1 else 0

end Dialect

/-- How many characters a string takes after its opening quote `q`: all up to a quote that is not
    doubled, and that quote; without one, all up to the line break. -/
def stringRest (q : Char) : Text → Nat
  | [] => 0
  | [c] => if c = '\n' then 0 else 1
  | c :: c' :: cs =>
    if c = '\n' then 0
    else if c = q then if c' = q then stringRest q cs + 2 else 1
    else stringRest q (c' :: cs) + 1

/-- The offset where the string that opens at offset `start` ends. -/
def stringEnd (t : Text) (start : Nat) : Nat :=
  match t.splitAt? start with
  | some (_, q :: cs) => start + Text.size (q :: cs.take (stringRest q cs))
  | _ => start

namespace Dialect

/-- What stands at the front of `c :: cs`, which follows `before`, and how many characters it takes.
    A comment takes all up to the line break, hence nothing where a line break opens it. -/
def cut (d : Dialect) (before : Option Char) (c : Char) (cs : Text) : PieceKind × Nat :=
  match d.classHere before (c :: cs) with
  | .newline => (.newline, 1)
  | .blank => (.blank, 1)
  | .comment => (.comment, ((c :: cs).takeWhile (· ≠ '\n')).length)
  | .separator => (.semicolon, 1)
  | .quote => (.string, stringRest c cs + 1)
  | .word => (.word, d.run .word c cs + 1)
  | .symbol =>
    if c = '=' && cs.head? ≠ some '=' then (.equals, 1) else (.symbol, d.run .symbol c cs + 1)

/-- The pieces of the line at the front of a text that follows `before`, and the text after it.  A
    comment that takes nothing ends the line with the line break that opens it. -/
def pieces (d : Dialect) (before : Option Char) : Text → List Piece × Text
  | [] => ([], [])
  | c :: cs =>
    let n := (d.cut before c cs).2
    let kind := (d.cut before c cs).1
    if _h : kind = .newline ∨ n = 0 then ([⟨kind, [c]⟩], cs)
    else
      let front := (c :: cs).take n
      let (ps, rest) := d.pieces front.getLast? ((c :: cs).drop n)
      (⟨kind, front⟩ :: ps, rest)
termination_by t => t.length
decreasing_by
  have hn : (d.cut before c cs).2 ≠ 0 := fun h0 => _h (Or.inr h0)
  simp only [List.length_drop, List.length_cons]
  omega

end Dialect

/-! ## Lexemes with their offsets -/

/-- The kind of a lexeme. -/
inductive LexemeKind where
  | word
  | symbol
  | equals
  | string
  | semicolon
  | newline
  deriving DecidableEq, Repr

/-- The kind of lexeme a piece is; blanks and comments are none. -/
def PieceKind.lexeme? : PieceKind → Option LexemeKind
  | .blank => none
  | .comment => none
  | .word => some .word
  | .symbol => some .symbol
  | .equals => some .equals
  | .string => some .string
  | .semicolon => some .semicolon
  | .newline => some .newline

/-- A piece of a line that carries meaning, with the offset where it starts. -/
structure Lexeme where
  kind : LexemeKind
  start : Nat
  text : Text
  deriving DecidableEq, Repr

namespace Lexeme

/-- The offset just after the lexeme. -/
def stop (l : Lexeme) : Nat := l.start + l.text.size

/-- Whether the lexeme ends a statement. -/
def endsStatement (l : Lexeme) : Bool := l.kind = .newline || l.kind = .semicolon

end Lexeme

/-- The lexemes among the pieces, the first of which starts at offset `p`. -/
def place (p : Nat) : List Piece → List Lexeme
  | [] => []
  | ⟨k, t⟩ :: ps =>
    match k.lexeme? with
    | some kind => ⟨kind, p, t⟩ :: place (p + t.size) ps
    | none => place (p + t.size) ps

/-- The length in bytes of pieces put together. -/
def Piece.totalSize (ps : List Piece) : Nat := Text.size (ps.flatMap Piece.text)

/-- A line with the offsets where it starts and where the next one starts. -/
structure LexedLine where
  start : Nat
  stop : Nat
  lexemes : List Lexeme
  deriving DecidableEq, Repr

namespace Dialect

/-- The line at offset `start`, which need not be the start of a line.  Inside a character there is
    an empty line of one byte; past the end there is nothing. -/
def lexLine (d : Dialect) (t : Text) (start : Nat) : LexedLine :=
  match t.splitAt? start with
  | some (before, rest) =>
    let ps := (d.pieces before.getLast? rest).1
    ⟨start, start + Piece.totalSize ps, place start ps⟩
  | none =>
    if start < t.size then ⟨start, start + 1, [⟨.newline, start, ['\n']⟩]⟩ else ⟨start, t.size, []⟩

end Dialect

/-! ## The pieces of a line are the line -/

namespace CharClass

theorem of_newline : of '\n' = .newline := rfl

theorem eq_newline_of_ofAscii {c : Char} (h : ofAscii c = .newline) : c = '\n' := by
  grind [ofAscii]

/-- Only the line feed has the class of line breaks. -/
theorem eq_newline_of_of {c : Char} (h : of c = .newline) : c = '\n' := by
  grind [of, eq_newline_of_ofAscii]

end CharClass

namespace Dialect

theorem classHere_newline (d : Dialect) (before : Option Char) (cs : Text) :
    d.classHere before ('\n' :: cs) = .newline ∨ d.classHere before ('\n' :: cs) = .comment := by
  rw [classHere]
  split
  · exact Or.inr rfl
  · exact Or.inl CharClass.of_newline

/-- Characters of a run are no line breaks. -/
theorem run_noBreak (d : Dialect) {k : CharClass} (hn : k ≠ .newline) (hc : k ≠ .comment)
    (before : Char) (t : Text) : ∀ c ∈ t.take (d.run k before t), c ≠ '\n' := by
  induction t generalizing before with
  | nil => simp
  | cons c cs ih =>
    rw [run]
    split
    case isTrue h =>
      intro x hx
      rcases List.mem_cons.1 (by simpa using hx) with rfl | hx
      · rintro rfl
        rcases d.classHere_newline (some before) cs with h' | h'
        · exact hn (h.symm.trans h')
        · exact hc (h.symm.trans h')
      · exact ih c x hx
    case isFalse => simp

end Dialect

/-- Characters of a string are no line breaks. -/
theorem stringRest_noBreak (q : Char) (t : Text) :
    ∀ c ∈ t.take (stringRest q t), c ≠ '\n' := by
  fun_induction stringRest q t with
  | case1 => simp
  | case2 => simp
  | case3 c h => simpa using h
  | case4 => simp
  | case5 => simp_all
  | case6 => simp_all
  | case7 => simp_all

namespace Text

theorem firstLine_append {a b : Text} (h : ∀ c ∈ a, c ≠ '\n') :
    firstLine (a ++ b) = a ++ firstLine b := by
  induction a with
  | nil => rfl
  | cons c cs ih =>
    have hc : c ≠ '\n' := h c (by simp)
    simp only [List.cons_append, firstLine, if_neg hc]
    rw [ih fun x hx => h x (by simp [hx])]

end Text

namespace Dialect

/-- A piece that is not a line break holds none. -/
theorem cut_noBreak (d : Dialect) (before : Option Char) (c : Char) (cs : Text)
    (h : (d.cut before c cs).1 ≠ .newline) :
    ∀ x ∈ (c :: cs).take (d.cut before c cs).2, x ≠ '\n' := by
  have hc : d.classHere before (c :: cs) ≠ .comment → d.classHere before (c :: cs) ≠ .newline →
      c ≠ '\n' := by
    rintro h1 h2 rfl
    rcases d.classHere_newline before cs with h' | h'
    · exact h2 h'
    · exact h1 h'
  unfold cut at h ⊢
  cases hk : d.classHere before (c :: cs) <;> simp only [hk] at h hc ⊢
  case newline => exact absurd rfl h
  case comment =>
    intro x hx
    have : (c :: cs).take ((c :: cs).takeWhile (· ≠ '\n')).length = (c :: cs).takeWhile (· ≠ '\n') :=
      List.prefix_iff_eq_take.1 (List.takeWhile_prefix _) |>.symm
    rw [this] at hx
    simpa using List.all_eq_true.1 List.all_takeWhile x hx
  case blank => simpa using hc (by simp) (by simp)
  case separator => simpa using hc (by simp) (by simp)
  case quote =>
    have hq := hc (by simp) (by simp)
    intro x hx
    rcases List.mem_cons.1 (by simpa using hx) with rfl | hx
    · exact hq
    · exact stringRest_noBreak c cs x hx
  case word =>
    intro x hx
    rcases List.mem_cons.1 (by simpa using hx) with rfl | hx
    · exact hc (by simp) (by simp)
    · exact d.run_noBreak (by simp) (by simp) c cs x hx
  case symbol =>
    have hq := hc (by simp) (by simp)
    split
    · simpa using hq
    · intro x hx
      rcases List.mem_cons.1 (by simpa using hx) with rfl | hx
      · exact hq
      · exact d.run_noBreak (by simp) (by simp) c cs x hx

/-- The last piece of a line starts with its line break. -/
theorem cut_stops (d : Dialect) (before : Option Char) (c : Char) (cs : Text)
    (h : (d.cut before c cs).1 = .newline ∨ (d.cut before c cs).2 = 0) : c = '\n' := by
  unfold cut at h
  cases hk : d.classHere before (c :: cs) <;> simp only [hk] at h
  case newline =>
    rw [classHere] at hk
    split at hk
    · cases hk
    · exact CharClass.eq_newline_of_of hk
  case comment =>
    rcases h with h | h
    · cases h
    · by_cases hc : c = '\n'
      · exact hc
      · simp [hc] at h
  all_goals first
    | (split at h <;> simp at h)
    | simp at h

/-- The pieces of a line, put together, are the line with its line break. -/
theorem pieces_text (d : Dialect) (before : Option Char) (t : Text) :
    (d.pieces before t).1.flatMap Piece.text = t.firstLine := by
  fun_induction pieces d before t with
  | case1 => rfl
  | case2 before c cs n kind h =>
    have hc : c = '\n' := d.cut_stops before c cs h
    simp [Text.firstLine, hc]
  | case3 before c cs n kind h front ps rest heq ih =>
    have hk : kind ≠ .newline := fun hk => h (Or.inl hk)
    have hb := d.cut_noBreak before c cs hk
    simp only [heq] at ih
    rw [List.flatMap_cons, ih, ← Text.firstLine_append hb, List.take_append_drop]

/-- Nothing of the text is lost between the pieces of its first line and the rest. -/
theorem pieces_append (d : Dialect) (before : Option Char) (t : Text) :
    (d.pieces before t).1.flatMap Piece.text ++ (d.pieces before t).2 = t := by
  fun_induction pieces d before t with
  | case1 => rfl
  | case2 => simp
  | case3 before c cs n kind h front ps rest heq ih =>
    simp only [heq] at ih
    rw [List.flatMap_cons, List.append_assoc, ih, List.take_append_drop]

/-- What follows the first line of a text is shorter than the text. -/
theorem pieces_shorter (d : Dialect) (before : Option Char) (c : Char) (cs : Text) :
    (d.pieces before (c :: cs)).2.length < (c :: cs).length := by
  have h := congrArg List.length (d.pieces_append before (c :: cs))
  rw [List.length_append, d.pieces_text] at h
  have hpos : 0 < (Text.firstLine (c :: cs)).length := by
    rw [Text.firstLine]
    split <;> simp
  omega

end Dialect

end BlockScript
