/-
  A report made of two outputs.

  What a linter wrote to its second output is read after what it wrote to the first, and the seam lies where
  a line ends (`lines_join`).  Only a record that the first output left open reaches over it.  The second
  output then meets it in one of two ways before its own first header: a result line finishes the record, or
  no line does and the header drops it.  From there on nothing of the first output is left, so the rest is
  read as if it stood alone (`scan_open`).

  The main result is `parse_join`.
-/
import BlockScript.Proofs.ReportPrinting

namespace BlockScript

/-! ## The seam -/

namespace Report

/-- After the end of a line the lines of a text start anew. -/
theorem lines_append {a : Text} (ha : a.EndsLine) (t : Text) : lines (a ++ t) = lines a ++ lines t := by
  induction a using Text.line_induction with
  | nil => rfl
  | line line rest hne hline hlines ih =>
    have hrest : rest.EndsLine := Text.EndsLine.right ha
    have hbroken : Text.IsLine line (rest ++ t) := hline.of_endsLine hne ha (rest ++ t)
    rcases hbroken with ⟨w, hw, rfl⟩ | ⟨hw, hnil⟩
    · have hsplit : Text.lines (w ++ ['\n'] ++ rest ++ t) = (w ++ ['\n']) :: Text.lines (rest ++ t) := by
        rw [List.append_assoc]
        exact Text.lines_append_break hw (rest ++ t)
      have hsame : lines (rest ++ t) = lines rest ++ lines t := ih hrest
      simp only [lines] at hsame ⊢
      rw [hsplit, hlines, List.map_cons, List.map_cons, List.cons_append, hsame]
    · -- a line without a break would have to be the last one
      obtain ⟨rfl, rfl⟩ := List.append_eq_nil_iff.1 hnil
      rw [List.append_nil]
      exact (List.append_nil _).symm

/-- A break behind a last line that has none leaves the lines as they are. -/
theorem lines_snoc_break {t : Text} (ht : ¬t.EndsLine) : lines (t ++ ['\n']) = lines t := by
  induction t using Text.line_induction with
  | nil => exact absurd (Or.inl rfl) ht
  | line line rest hne hline hlines ih =>
    rcases hline with ⟨w, hw, rfl⟩ | ⟨hw, rfl⟩
    · have hrest : ¬rest.EndsLine := by
        rintro (rfl | hlast)
        · exact ht (Or.inr (by simp))
        · exact ht (Or.inr (by rw [List.getLast?_append, hlast, Option.some_or]))
      have hends : Text.EndsLine (w ++ ['\n']) := Or.inr (by simp)
      rw [List.append_assoc, lines_append hends, ih hrest, ← lines_append hends]
    · have hlast := Text.lines_append_break hw []
      simp only [List.append_nil] at hlast hlines ⊢
      rw [lines, lines, hlast, hlines, List.map_cons, List.map_cons, trimEnd_break]

/-- **The seam of two outputs lies between two lines.** -/
theorem lines_join (out err : Text) : lines (join out err) = lines out ++ lines err := by
  by_cases hout : out.EndsLine
  · have hjoin : join out err = out ++ err := by
      rcases hout with rfl | hlast
      · rfl
      · simp [join, hlast]
    rw [hjoin, lines_append hout]
  · have hjoin : join out err = out ++ ['\n'] ++ err := by
      obtain ⟨hne, hlast⟩ := not_or.1 hout
      simp [join, hne, hlast]
    have hends : Text.EndsLine (out ++ ['\n']) := Or.inr (by simp)
    rw [hjoin, lines_append hends, lines_snoc_break hout]

end Report

/-! ## An open record -/

/-- Whether a line is a header. -/
def isHeaderLine (line : Text) : Bool := (RecordHeader.ofLine? line).isSome

theorem ofLine?_of_not_header {l : Text} (hl : isHeaderLine l = false) : RecordHeader.ofLine? l = none :=
  Option.isSome_eq_false_iff.1 hl |> Option.isNone_iff_eq_none.1

/-- The record that lines finish: the first result line before the first header, with what stands before it
    as more of the context. -/
def OpenRecord.finishedBy (r : OpenRecord) (ls : List Text) : Option Record :=
  let own := ls.takeWhile (!isHeaderLine ·)
  let context := own.takeWhile fun l => (resultOfLine? l).isNone
  ((own.drop context.length).head?.bind resultOfLine?).map fun (severity, message) =>
    { r with context := r.context ++ context }.finish severity message

namespace OpenRecord

variable {l : Text} (r : OpenRecord) (ls : List Text)

theorem finishedBy_header (hl : isHeaderLine l) : r.finishedBy (l :: ls) = none := by
  simp [finishedBy, hl]

theorem finishedBy_result (hl : isHeaderLine l = false) {severity : Severity} {message : Text}
    (hresult : resultOfLine? l = some (severity, message)) :
    r.finishedBy (l :: ls) = some (r.finish severity message) := by
  simp [finishedBy, hl, hresult]

theorem finishedBy_context (hl : isHeaderLine l = false) (hresult : resultOfLine? l = none) :
    r.finishedBy (l :: ls) = { r with context := r.context ++ [l] }.finishedBy ls := by
  simp [finishedBy, hl, hresult]

end OpenRecord

namespace Report

/-- A header counts whatever was open before it. -/
theorem step_header {l : Text} (hl : isHeaderLine l) (pending : Option OpenRecord) :
    step pending l = step none l := by
  obtain ⟨h, hh⟩ := Option.isSome_iff_exists.1 hl
  simp only [step, hh]

/-- Outside records a line that is no header is passed over. -/
theorem step_outside {l : Text} (hl : isHeaderLine l = false) : step none l = (none, none) := by
  simp only [step, ofLine?_of_not_header hl]

/-- **An open record is finished once or not at all**, and what follows is read as if it had not been
    open. -/
theorem scan_open (r : OpenRecord) (ls : List Text) :
    (scan (some r) ls).1 = (r.finishedBy ls).toList ++ (scan none ls).1 := by
  induction ls generalizing r with
  | nil => rfl
  | cons l ls ih =>
    cases hl : isHeaderLine l with
    | true =>
      rw [scan, scan, step_header hl, r.finishedBy_header ls hl]
      rfl
    | false =>
      have hnone := ofLine?_of_not_header hl
      have houtside : (scan none (l :: ls)).1 = (scan none ls).1 := by
        rw [scan, step_outside hl]
        rfl
      rw [houtside]
      cases hresult : resultOfLine? l with
      | some result =>
        obtain ⟨severity, message⟩ := result
        have hstep : step (some r) l = (none, some (r.finish severity message)) := by
          simp only [step, hnone, hresult]
        rw [scan, hstep, r.finishedBy_result ls hl hresult]
      | none =>
        have hstep : step (some r) l = (some { r with context := r.context ++ [l] }, none) := by
          simp only [step, hnone, hresult]
        rw [scan, hstep, r.finishedBy_context ls hl hresult]
        exact ih _

/-! ## The records of both -/

/-- **The outputs of a linter do not spoil each other.**  The report made of both has the records of the
    first and then those of the second.  Between them stands at most one more, and only if the first output
    leaves a record open: that record, finished by the first result line that the second output has before
    its first header. -/
theorem parse_join (out err : Text) :
    ∃ x : List Record, parse (join out err) = parse out ++ x ++ parse err ∧ x.length ≤ 1 ∧
      ((scan none (lines out)).2 = none → x = []) ∧
      ∀ r, (scan none (lines out)).2 = some r → x = (r.finishedBy (lines err)).toList := by
  have hparse : parse (join out err) = parse out ++ (scan (scan none (lines out)).2 (lines err)).1 := by
    rw [parse, lines_join, scan_append]
    rfl
  cases hopen : (scan none (lines out)).2 with
  | none =>
    rw [hopen] at hparse
    refine ⟨[], ?_, Nat.zero_le _, fun _ => rfl, ?_⟩
    · rw [hparse, List.append_nil]
      rfl
    · intro r hr
      cases hr
  | some r =>
    rw [hopen, scan_open, ← List.append_assoc] at hparse
    refine ⟨(r.finishedBy (lines err)).toList, hparse, ?_, ?_, ?_⟩
    · cases r.finishedBy (lines err) with
      | none => exact Nat.zero_le _
      | some record => exact Nat.le_refl _
    · intro hnone
      cases hnone
    · intro r' hr
      obtain rfl := Option.some.inj hr
      rfl

/-- A header that the first output ends with takes the first result of the second. -/
example : (parse (join "a:1:\nerror: x\nb:2:".toList "  y\nnote: z\nc:3:\nwarning: w\n".toList)).map
    (fun r => (r.line, r.excerpt.map String.ofList, r.severity)) =
    [(1, none, .error), (2, some "y", .note), (3, none, .warning)] := by
  decide +kernel

end Report

end BlockScript
