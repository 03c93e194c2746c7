/-
  Indentation: of one line relative to an earlier one, and of a whole text.

  A line that starts with a closer, or with an `else` that continues a block, stands as deep as the
  line of its opener; any other line stands one unit deeper than the line of the innermost open
  construct.  A tab counts as one unit.

  Columns are numbers of 64 bits: the indentation of a line has no value if the columns of the line it
  hangs on need more, and a text cannot be indented if a line of it takes more blanks than a text can
  have.
-/
import BlockScript.Arithmetic
import BlockScript.Nesting.Match
import BlockScript.Text.Blank

namespace BlockScript

/-- The indentation of a line: that of the line at `anchor`, if any, and `delta` units more. -/
structure Indentation where
  anchor : Option Nat
  delta : Nat
  deriving DecidableEq, Repr

namespace Layout

/-- Columns per unit of indentation. -/
def unit (l : Layout) : Nat := max l.indentWidth 1

/-- The blanks that indent a line by `level` units. -/
def blanks (l : Layout) (level : Nat) : Text :=
  if l.useTabs then List.replicate level '\t' else List.replicate (level * l.unit) ' '

/-- Whether a text can have the blanks that indent a line by `level` units. -/
def fits (l : Layout) (level : Nat) : Bool :=
  (if l.useTabs then level else level * l.unit) ≤ maxTextSize

/-- The columns that the leading spaces and tabs of a text take, if they fit 64 bits. -/
def leadingColumns (l : Layout) : Text → Option Nat
  | ' ' :: cs => (l.leadingColumns cs).bind (Arithmetic.checked.add? 1)
  | '\t' :: cs => (l.leadingColumns cs).bind (Arithmetic.checked.add? l.unit)
  | _ => some 0

end Layout

/-- Whether the character indents a line. -/
def isIndent (c : Char) : Bool := c = ' ' || c = '\t'

/-- The text with the leading spaces and tabs of every line removed. -/
def Text.flatten (t : Text) : Text := t.lines.flatMap (·.dropWhile isIndent)

namespace Profile

variable (P : Profile) (b : Buffer)

/-- The opener whose line the line that starts with `first` is aligned with. -/
def alignedWith (s : Scanner) (first : Token) : Option Token × Scanner :=
  let (continues, s) := P.continuesIf b s first
  if continues then P.openerOf b s first.asElse
  else if first.kind.role = .closer then P.openerOf b s first
  else if first.kind = .elseBlock then
    let (flat, s) := P.isFlatElse b s first
    if flat then (none, s) else P.openerOf b s first
  else (none, s)

/-- The indentation of the line that holds offset `p`, and the scanner that found it. -/
def findIndentation (p : Nat) : Indentation × Scanner :=
  let start := b.text.lineStart p
  let (first, s) := P.scanner.next P.dialect b start
  let (opener, s) :=
    if first.kind ≠ .edge && first.start ≤ b.text.lineEnd start then P.alignedWith b s first
    else (none, s)
  match opener with
  | some o => (⟨some (b.text.lineStart o.start), 0⟩, s)
  | none =>
    match P.unclosedBefore b s {} start with
    | (some o, _, s) => (⟨some (b.text.lineStart o.start), 1⟩, s)
    | (none, _, s) => (⟨none, 0⟩, s)

/-- The indentation of the line that holds offset `p`. -/
def indentation (p : Nat) : Indentation := (P.findIndentation b p).1

/-- The indentation of the line that holds offset `p`, in units, if its sums fit 64 bits. -/
def indentOf (p : Nat) : Option Nat :=
  let found := P.indentation b p
  let base := match found.anchor with
    | some a => (P.layout.leadingColumns (b.text.slice a b.size)).map (· / P.layout.unit)
    | none => some 0
  base.bind (Arithmetic.checked.add? · found.delta)

/-- A line indented by `level` units; of a line of blanks only its ending is left. -/
def indentLine (level : Nat) (line : Text) : Text :=
  let content : Text := line.dropWhile isIndent
  let body := content.trimEnd Text.isLineEnding
  if body.all isBlank then content.drop body.length else P.layout.blanks level ++ content

/-- Indents the lines that start at offset `start`, given the levels of those before by their
    starts. -/
def indentLines (levels : List (Nat × Nat)) (start : Nat) : List Text → Text
  | [] => []
  | line :: ls =>
    let found := P.indentation b start
    let level := (found.anchor.bind (levels.lookup ·)).getD 0 + found.delta
    P.indentLine level line ++ indentLines ((start, level) :: levels) (start + line.size) ls

/-- The text with every line indented as its nesting asks. -/
def reindent (t : Text) : Text := P.indentLines (Buffer.ofText t) [] 0 t.lines

/-- Whether a text can have the blanks of the lines that start at offset `start`, given the levels of
    those before by their starts. -/
def linesFit (levels : List (Nat × Nat)) (start : Nat) : List Text → Bool
  | [] => true
  | line :: ls =>
    let found := P.indentation b start
    let level := (found.anchor.bind (levels.lookup ·)).getD 0 + found.delta
    (line.all isBlank || P.layout.fits level) &&
      linesFit ((start, level) :: levels) (start + line.size) ls

/-- The text with every line indented, if there can be one. -/
def tryReindent (t : Text) : Option Text :=
  if P.linesFit (Buffer.ofText t) [] 0 t.lines then some (P.reindent t) else none

end Profile

end BlockScript
