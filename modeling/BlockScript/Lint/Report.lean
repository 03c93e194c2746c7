/-
  Reports of a linter.

  A record starts with a header line `FILE:LINE:`, after which `near "EXCERPT"` may follow, with every
  quote of the excerpt doubled.  It ends with a result line `KIND: MESSAGE`.  Lines between them are
  context: the first one that is neither blank nor a row of carets is the excerpt if the header gives
  none.  A header drops an unfinished record before it; lines outside records are ignored.
-/
import BlockScript.Text.Basic
import BlockScript.Text.Blank
import BlockScript.Text.Numeric

namespace BlockScript

/-- How grave a finding is. -/
inductive Severity where
  | error
  | warning
  | note
  deriving DecidableEq, Repr

namespace Severity

/-- Every severity. -/
def all : List Severity := [.error, .warning, .note]

/-- The word for a severity. -/
def word : Severity → String
  | .error => "error"
  | .warning => "warning"
  | .note => "note"

/-- The severity that a word names. -/
def ofWord? (w : Text) : Option Severity := all.find? (·.word.toList = w)

end Severity

/-- A finding of the linter, not yet placed in a text. -/
structure Record where
  file : Text
  line : Nat
  excerpt : Option Text
  severity : Severity
  message : Text
  deriving DecidableEq, Repr

/-! ## Lines of a report -/

/-- A header line. -/
structure RecordHeader where
  file : Text
  digits : Text
  excerpt : Option Text
  deriving DecidableEq, Repr

/-- Reads text in which quotes are doubled up to its closing quote, which only blanks may follow. -/
def quotedExcerpt? : Text → Option Text
  | [] => none
  | [c] => if c = '"' then some [] else none
  | c :: c' :: cs =>
    if c = '"' then
      if c' = '"' then (quotedExcerpt? cs).map ('"' :: ·)
      else if (c' :: cs).all isBlank then some [] else none
    else (quotedExcerpt? (c' :: cs)).map (c :: ·)

/-- Reads the excerpt after `near`. -/
def nearExcerpt? (t : Text) : Option Text :=
  match t with
  | 'n' :: 'e' :: 'a' :: 'r' :: c :: cs =>
    if isBlank c then
      match cs.dropWhile isBlank with
      | '"' :: quoted => quotedExcerpt? quoted
      | _ => none
    else none
  | _ => none

/-- Reads `FILE:LINE:` with an optional excerpt. -/
def RecordHeader.ofLine? (line : Text) : Option RecordHeader := do
  let file := line.takeWhile (· ≠ ':')
  guard (file.head?.any (!isBlank ·))
  let afterFile := (line.drop file.length).drop 1
  let digits := afterFile.takeWhile isDecimal
  guard (!digits.isEmpty)
  match afterFile.drop digits.length with
  | ':' :: rest =>
    match rest.dropWhile isBlank with
    | [] => return ⟨file, digits, none⟩
    | near => return ⟨file, digits, some (← nearExcerpt? near)⟩
  | _ => none

/-- Reads `KIND: MESSAGE`, without blanks around the message. -/
def resultOfLine? (line : Text) : Option (Severity × Text) := do
  let word := line.takeWhile (· ≠ ':')
  let severity ← Severity.ofWord? word
  match line.drop word.length with
  | _ :: message => return (severity, Text.trim isBlank message)
  | [] => none

/-- Whether a line only points at something with `^` and `~`. -/
def isCaretLine (line : Text) : Bool :=
  let marks := Text.trim isBlank line
  !marks.isEmpty && marks.all fun c => c = '^' || c = '~'

/-- The value of a line number: ASCII digits, below 2^64. -/
def lineNumber? (digits : Text) : Option Nat :=
  if digits.all Char.isDigit then
    let n := digits.foldl (fun n c => n * 10 + (c.toNat - '0'.toNat)) 0
    if n < UInt64.size then some n else none
  else none

/-! ## Records -/

/-- A record whose result line is still to come. -/
structure OpenRecord where
  file : Text
  line : Nat
  excerpt : Option Text
  context : List Text
  deriving DecidableEq, Repr

namespace OpenRecord

/-- The excerpt that the context gives. -/
def contextExcerpt (r : OpenRecord) : Option Text :=
  (r.context.find? fun l => !isCaretLine l && !l.all isBlank).map (Text.trim isBlank)

/-- The record with its result. -/
def finish (r : OpenRecord) (severity : Severity) (message : Text) : Record :=
  ⟨r.file, r.line, r.excerpt <|> r.contextExcerpt, severity, message⟩

end OpenRecord

namespace Report

/-- Takes in one line: the record then open, and the record it finishes. -/
def step (pending : Option OpenRecord) (line : Text) : Option OpenRecord × Option Record :=
  match RecordHeader.ofLine? line with
  | some h => ((lineNumber? h.digits).map fun n => ⟨h.file, n, h.excerpt, []⟩, none)
  | none =>
    match pending with
    | none => (none, none)
    | some r =>
      match resultOfLine? line with
      | some (severity, message) => (none, some (r.finish severity message))
      | none => (some { r with context := r.context ++ [line] }, none)

/-- Takes in lines: the records they finish, and the record then open. -/
def scan (pending : Option OpenRecord) : List Text → List Record × Option OpenRecord
  | [] => ([], pending)
  | line :: ls =>
    let (pending, finished) := step pending line
    let (records, last) := scan pending ls
    (finished.toList ++ records, last)

/-- The lines of a report, without line feeds and carriage returns at their ends. -/
def lines (report : Text) : List Text := report.lines.map (Text.trimEnd Text.isLineEnding)

/-- The records of a report. -/
def parse (report : Text) : List Record := (scan none (lines report)).1

/-- The report made of what a linter wrote to its two outputs. -/
def join (out err : Text) : Text :=
  out ++ (if out.isEmpty || out.getLast? = some '\n' then [] else ['\n']) ++ err

end Report

end BlockScript
