/-
  Diagnostics: findings of a linter placed in the text it was given.

  A finding goes to the leftmost place on its line where its excerpt occurs; without an excerpt there,
  to the first word of the line, or to the end of a blank line.  A finding on a line that the text does
  not have is dropped.
-/
import BlockScript.Lint.Report

namespace BlockScript

/-- A finding with the stretch of text it is about, on the given line (counted from 1). -/
structure Diagnostic where
  start : Nat
  stop : Nat
  line : Nat
  severity : Severity
  message : Text
  deriving DecidableEq, Repr

namespace Diagnostic

/-- The diagnostic as `LINE:START..STOP: SEVERITY: MESSAGE`. -/
def display (d : Diagnostic) : String :=
  toString d.line ++ ":" ++ toString d.start ++ ".." ++ toString d.stop ++ ": " ++ d.severity.word ++
    ": " ++ String.ofList d.message

/-- The first run of characters that are not blank, or the end of the line. -/
def firstWord (line : Text) : Nat × Nat :=
  let start := Text.size (line.takeWhile isBlank)
  let word := (line.dropWhile isBlank).takeWhile (!isBlank ·)
  (start, start + Text.size word)

/-- Where on a line a finding with the given excerpt goes. -/
def locate (line : Text) (excerpt : Option Text) : Nat × Nat :=
  match excerpt.filter (!·.isEmpty) with
  | none => firstWord line
  | some word =>
    match Text.indexOf? word line with
    | some p => (p, p + word.size)
    | none => firstWord line

/-- The line with the given number, counted from 1, with its offset and without its ending. -/
def numberedLine? (t : Text) : Nat → Option (Nat × Text)
  | 0 => none
  | n + 1 =>
    t.lines[n]?.map fun line =>
      (Text.size (t.lines.take n).flatten, Text.trimEnd Text.isLineEnding line)

/-- Places a record in a text. -/
def ofRecord? (t : Text) (r : Record) : Option Diagnostic :=
  (numberedLine? t r.line).map fun (offset, line) =>
    let (start, stop) := locate line r.excerpt
    ⟨offset + start, offset + stop, r.line, r.severity, r.message⟩

/-- Places records in a text, without those that do not land in it. -/
def ofRecords (t : Text) (rs : List Record) : List Diagnostic := rs.filterMap (ofRecord? t)

end Diagnostic

end BlockScript
