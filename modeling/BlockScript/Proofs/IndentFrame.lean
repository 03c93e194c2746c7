/-
  What indenting leaves alone.

  Whatever levels the lines are given, and so under any budget, an indented text is the old one line by
  line, each line indented by some level (`exists_indentBy`).  Indenting a line by any level changes the
  spaces and tabs at its front only, or reduces a line of blanks to its ending (`indentLine_reindented`);
  and none of that shows in what the tokens say (`readings_indentBy`).
-/
import BlockScript.Proofs.LineLocality
import BlockScript.Proofs.Reindent

namespace BlockScript

namespace Text

/-- How a line may look once it is indented: of a line of blanks the carriage returns and the line break
    at its end are left; any other line is the same after its leading spaces and tabs. -/
structure Reindented (old new : Text) : Prop where
  blank : (∀ c ∈ old, isBlank c) → new = old.rtakeWhile isLineEnding
  other : ¬(∀ c ∈ old, isBlank c) → new.dropWhile isIndent = old.dropWhile isIndent

theorem not_isLineEnding_of_isIndent {c : Char} (h : isIndent c) : ¬isLineEnding c := by
  simp only [isIndent, Bool.or_eq_true, decide_eq_true_eq] at h
  rcases h with rfl | rfl <;> decide

/-- Leading spaces and tabs are not part of the ending of a line. -/
theorem ending_eq_rtakeWhile (line : Text) : ending line = line.rtakeWhile isLineEnding := by
  have hlead : (line.takeWhile isIndent).reverse.takeWhile isLineEnding = [] := by
    refine List.takeWhile_eq_nil_iff.2 fun hpos => ?_
    have hmem : (line.takeWhile isIndent).reverse[0] ∈ line.takeWhile isIndent :=
      List.mem_reverse.1 (List.getElem_mem hpos)
    exact not_isLineEnding_of_isIndent (List.all_eq_true.1 List.all_takeWhile _ hmem)
  have hline : line.reverse = (line.dropWhile isIndent).reverse ++ (line.takeWhile isIndent).reverse := by
    rw [← List.reverse_append, List.takeWhile_append_dropWhile]
  rw [ending, List.rtakeWhile, hline, List.takeWhile_append, hlead, List.append_nil]
  split
  · next hall => rw [List.takeWhile_prefix _ |>.eq_of_length hall]
  · rfl

theorem isBlankLine_iff (line : Text) : IsBlankLine line ↔ ∀ c ∈ line, isBlank c := by
  constructor
  · exact Profile.isBlank_of_isBlankLine
  · intro h
    refine List.all_eq_true.2 fun c hc => h c ?_
    rw [← List.takeWhile_append_dropWhile (p := isIndent) (l := line)]
    rw [← trimEnd_append isLineEnding (line.dropWhile isIndent)]
    exact List.mem_append_right _ (List.mem_append_left _ hc)

/-- The lines of a text made of lines that keep their breaks are these lines.  Only the last one may be
    left without any character, and an empty line is no line. -/
theorem getD_lines_flatten {t : Text} {ls : List Text} (h : List.Forall₂ KeepsBreak t.lines ls) (i : Nat) :
    (lines ls.flatten).getD i [] = ls.getD i [] := by
  induction t using line_induction generalizing ls i with
  | nil =>
    cases h
    rfl
  | line line rest hne hline hlines ih =>
    rw [hlines] at h
    obtain ⟨new, ls, ⟨hbreak, hnone⟩, hrest, rfl⟩ := List.forall₂_cons_left_iff.1 h
    rw [List.flatten_cons]
    rcases hline with ⟨w, hw, rfl⟩ | ⟨hw, rfl⟩
    · obtain ⟨w', hw', rfl⟩ := hbreak w hw rfl
      rw [lines_append_break hw']
      cases i with
      | zero => rfl
      | succ i => exact ih hrest i
    · -- the last line
      cases hrest
      rw [List.flatten_nil, List.append_nil, lines_noBreak (hnone hw)]
      by_cases hnew : new = []
      · rw [hnew]
        cases i <;> rfl
      · rw [List.filter_cons_of_pos (by simpa using hnew), List.filter_nil]

end Text

namespace Profile

variable {P : Profile}

/-- However a line is indented, nothing but its blanks changes. -/
theorem indentLine_reindented (P : Profile) (level : Nat) (line : Text) :
    Text.Reindented line (P.indentLine level line) where
  blank h := by
    rw [indentLine_blank ((Text.isBlankLine_iff line).2 h), Text.ending_eq_rtakeWhile]
  other h := by
    rw [indentLine_other (mt (Text.isBlankLine_iff line).1 h),
      List.dropWhile_append_of_pos (P.layout.isIndent_of_mem_blanks level)]
    exact List.dropWhile_idempotent ..

/-- Whatever the searches find, each line is indented by some level. -/
theorem exists_indentBy_lines (b : Buffer) (found : List (Nat × Nat)) (start : Nat) (ls : List Text) :
    ∃ levels, levels.length = ls.length ∧
      P.indentLines b found start ls = (P.indentBy levels ls).flatten := by
  induction ls generalizing found start with
  | nil => exact ⟨[], rfl, rfl⟩
  | cons line ls ih =>
    rw [indentLines]
    generalize ((P.indentation b start).anchor.bind (found.lookup ·)).getD 0 +
      (P.indentation b start).delta = level
    obtain ⟨levels, hlen, heq⟩ := ih ((start, level) :: found) (start + line.size)
    refine ⟨level :: levels, by simp [hlen], ?_⟩
    rw [heq]
    rfl

theorem exists_indentBy (P : Profile) (t : Text) :
    ∃ levels, levels.length = t.lines.length ∧ P.reindent t = (P.indentBy levels t.lines).flatten :=
  exists_indentBy_lines (Buffer.ofText t) [] 0 t.lines

theorem getD_indentBy {levels : List Nat} {ls : List Text} (hlen : levels.length = ls.length) (i : Nat) :
    (P.indentBy levels ls).getD i [] = P.indentLine (levels.getD i 0) (ls.getD i []) := by
  have hempty : P.indentLine 0 [] = [] := indentLine_ending (by simp)
  induction ls generalizing levels i with
  | nil =>
    obtain rfl := List.length_eq_zero_iff.1 hlen
    exact hempty.symm
  | cons line ls ih =>
    obtain ⟨level, levels, rfl⟩ := List.exists_cons_of_length_eq_add_one hlen
    cases i with
    | zero => rfl
    | succ i => exact ih (by simpa using hlen) i

/-- Indenting the lines of a text by any levels does not change what its tokens say. -/
theorem readings_indentBy (hm : ∀ c ∈ P.dialect.marker, ¬isBlank c) {t : Text} {levels : List Nat}
    (hlen : levels.length = t.lines.length) :
    P.dialect.readings (P.indentBy levels t.lines).flatten = P.dialect.readings t := by
  have hbreak : '\n' ∉ P.dialect.marker := fun hmem => hm _ hmem (by decide)
  induction t using Text.line_induction generalizing levels with
  | nil =>
    rw [show Text.lines [] = [] from rfl, indentBy, List.zipWith_nil_right]
    rfl
  | line line rest hne hline hlines ih =>
    rw [hlines] at hlen ⊢
    obtain ⟨level, levels, rfl⟩ := List.exists_cons_of_length_eq_add_one hlen
    have hsame := indentLine_invariant (P := P) (P.dialect.readings_lead hm) hline level
    have hrest := ih (show levels.length = rest.lines.length by simpa using hlen)
    rw [indentBy, List.zipWith_cons_cons, List.flatten_cons, ← indentBy]
    rcases hline with ⟨w, hw, rfl⟩ | ⟨hw, rfl⟩
    · -- the line keeps its break, so both texts fall apart behind it
      obtain ⟨w', hw', heq⟩ := P.indentLine_break level hw
      rw [heq] at hsame ⊢
      rw [P.dialect.readings_append hbreak (Or.inr (by simp)), hsame, hrest,
        ← P.dialect.readings_append hbreak (Or.inr (by simp))]
    · rw [show Text.lines [] = [] from rfl, indentBy, List.zipWith_nil_right, List.flatten_nil,
        List.append_nil, List.append_nil, hsame]

/-- **Indenting changes nothing but blanks**, for every marker without blanks, every layout and every
    budget.  The tokens of the indented text are as many as before and say the same, one by one; and each
    of its lines is the old one but for its leading spaces and tabs, or what ends the old one if that
    was blank.  A line that is not there counts as empty. -/
theorem reindent_changes_blanks (P : Profile) (t : Text) (hm : ∀ c ∈ P.dialect.marker, ¬isBlank c) :
    P.dialect.readings (P.reindent t) = P.dialect.readings t ∧
      ∀ i, Text.Reindented (t.lines.getD i []) ((P.reindent t).lines.getD i []) := by
  obtain ⟨levels, hlen, heq⟩ := P.exists_indentBy t
  rw [heq]
  constructor
  · exact readings_indentBy hm hlen
  · intro i
    rw [Text.getD_lines_flatten (indentBy_keepsBreak hlen), getD_indentBy hlen]
    exact P.indentLine_reindented _ _

/-- A budget of one visit, so that no line is indented as its nesting asks: a name with blanks before it,
    a string that holds blanks, a line of blanks with a carriage return, and a last line of blanks. -/
theorem reindent_changes_blanks_one_visit :
    let P : Profile := { layout := { maxVisits := 1 } }
    let t : Text := "  begin  é\r\n\tx = \" y\n \x0b \r\n  ".toList
    P.dialect.marker.all (!isBlank ·) ∧
      P.reindent t = "begin  é\r\nx = \" y\n\r\n".toList ∧
      P.dialect.readings t = [(.beginBlock, "begin  é".toList, some "é".toList),
        (.separator, "\n".toList, none), (.var, "x".toList, none), (.expr, "=".toList, none),
        (.expr, "\" y".toList, none), (.separator, "\n".toList, none), (.separator, "\n".toList, none)] ∧
      P.dialect.readings (P.reindent t) = P.dialect.readings t ∧
      ∀ i, Text.Reindented (t.lines.getD i []) ((P.reindent t).lines.getD i []) := by
  intro P t
  have hrun : P.dialect.marker.all (!isBlank ·) ∧ P.reindent t = "begin  é\r\nx = \" y\n\r\n".toList ∧
      P.dialect.readings t = [(.beginBlock, "begin  é".toList, some "é".toList),
        (.separator, "\n".toList, none), (.var, "x".toList, none), (.expr, "=".toList, none),
        (.expr, "\" y".toList, none), (.separator, "\n".toList, none), (.separator, "\n".toList, none)] := by
    decide +kernel
  obtain ⟨hmarker, hvalue, hreadings⟩ := hrun
  have hm : ∀ c ∈ P.dialect.marker, ¬isBlank c := by simpa using hmarker
  exact ⟨hmarker, hvalue, hreadings, reindent_changes_blanks P t hm⟩

end Profile

end BlockScript
