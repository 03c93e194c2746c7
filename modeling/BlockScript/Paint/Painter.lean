/-
  Painting a text: strings and comments, and keywords outside them.
-/
import BlockScript.Lexeme
import BlockScript.Paint.Matcher

namespace BlockScript

/-- The keyword trees of scripts. -/
def defaultTrees : List KeywordTree :=
  let shapes := (KeywordTree.ofWords .type false ["clip", "path", "group"]).nest "box"
    (.ofWords .function false ["fill", "stroke", "add"])
  let statements := KeywordTree.ofWords .keyword false
    ["if", "for", "next", "while", "until", "sub", "gsave", "grestore", "call", "return"]
    |>.nest "else" (.ofWords .keyword false ["if"])
    |>.nest "end" (.ofWords .keyword false ["if", "sub"])
    |>.nest "begin" shapes
  [statements,
    .ofWords .keyword true ["then", "to", "step", "and", "or", "not"],
    .ofWords .constant true ["true", "false"],
    .ofWords .builtin true ["print", "input"]]

namespace Dialect

/-- The strings and comments of a row of `length` characters at the front of a text, which is at
    offset `p` and follows `before`. -/
def paintLiterals (d : Dialect) (before : Option Char) (p : Nat) (length : Nat) (t : Text) :
    List Span :=
  match t with
  | [] => []
  | c :: cs =>
    if length = 0 then []
    else
      match d.classHere before (c :: cs) with
      | .comment => [⟨.comment, p, p + Text.size ((c :: cs).take length)⟩]
      | .quote =>
        let n := min (stringRest c cs + 1) length
        let string : Text := (c :: cs).take n
        ⟨.string, p, p + string.size⟩ ::
          d.paintLiterals string.getLast? (p + string.size) (length - n) ((c :: cs).drop n)
      | _ => d.paintLiterals (some c) (p + c.utf8Size) (length - 1) cs
termination_by t.length
decreasing_by
  all_goals simp only [List.length_drop, List.length_cons]
  all_goals omega

end Dialect

namespace Span

/-- Whether a span and a range have something in common. -/
def overlaps (s : Span) (start stop : Nat) : Bool := s.start < stop && start < s.stop

/-- The part of a span inside a range. -/
def clip (s : Span) (start stop : Nat) : Span := ⟨s.colour, max s.start start, min s.stop stop⟩

/-- Order by start, then by end. -/
def le (s s' : Span) : Bool := s.start < s'.start || (s.start = s'.start && s.stop ≤ s'.stop)

end Span

/-- A dialect with the matchers of its keyword trees. -/
structure Painter where
  dialect : Dialect
  matchers : List Matcher

namespace Painter

/-- The painter of a dialect and its keyword trees. -/
def compile (trees : List KeywordTree) (d : Dialect) : Except TreeError Painter := do
  return ⟨d, ← trees.mapM (Matcher.compile · d.ignoreCase)⟩

/-- The strings and comments of a row of a text. -/
def literalsOfRow (P : Painter) (t : Text) (p : Nat) (row : Text) : List Span :=
  match t.splitAt? p with
  | some (before, rest) => P.dialect.paintLiterals before.getLast? p row.length rest
  | none => []

/-- The spans that overlap the range from `start` to `stop`, cut to it, in order.  Keywords that
    overlap a string or a comment are left out. -/
def paint (P : Painter) (t : Text) (start stop : Nat) : List Span :=
  let rows := t.rowsIn start stop
  let literals := rows.flatMap fun (p, row) => P.literalsOfRow t p row
  let keywords := rows.flatMap fun (p, row) => P.matchers.flatMap (·.paintRow p row)
  let visible := keywords.filter fun k => !literals.any (·.overlaps k.start k.stop)
  let shown := (literals ++ visible).filter (·.overlaps start stop)
  (shown.map (·.clip start stop)).mergeSort Span.le

end Painter

end BlockScript
