/-
  Indenting a text twice, and texts that differ in their indentation.

  Indenting changes the blanks at the front of a line and what a line of blanks holds, nothing else.  So
  it keeps the lines of a text (`lines_indentBy`) and their skeletons (`skeleton_indentLine`), hence
  their levels; and a line that is indented by its level stays as it is (`indentLine_indentLine`).  The
  same goes for taking the indentation of all lines away, so what a text is indented to does not depend
  on how it was indented before (`reindent_canonical`).

  This takes that every search sees the whole text.  The visits that a search makes depend on the very
  blanks that indenting changes, so under a tight budget the second pass may see less than the first
  (`reindent_twice_under_budget`).
-/
import BlockScript.Proofs.IndentLevels
import Mathlib.Data.List.DropRight
import Mathlib.Data.List.Forall2

namespace BlockScript

theorem isBlank_of_isIndent {c : Char} (h : isIndent c) : isBlank c ∧ c ≠ '\n' := by
  simp only [isIndent, Bool.or_eq_true, decide_eq_true_eq] at h
  rcases h with rfl | rfl <;> decide

theorem Layout.isIndent_of_mem_blanks (l : Layout) (level : Nat) : ∀ c ∈ l.blanks level, isIndent c := by
  intro c hc
  unfold blanks at hc
  split at hc
  · rw [List.eq_of_mem_replicate hc]
    rfl
  · rw [List.eq_of_mem_replicate hc]
    rfl

namespace Text

theorem drop_trimEnd (p : Char → Bool) (t : Text) :
    t.drop (trimEnd p t).length = (t.reverse.takeWhile p).reverse := by
  calc t.drop (trimEnd p t).length
      = (trimEnd p t ++ (t.reverse.takeWhile p).reverse).drop (trimEnd p t).length := by
        rw [trimEnd_append]
    _ = (t.reverse.takeWhile p).reverse := List.drop_left

/-- Whether a line holds nothing but blanks. -/
def IsBlankLine (line : Text) : Prop := (trimEnd isLineEnding (line.dropWhile isIndent)).all isBlank

instance (line : Text) : Decidable (IsBlankLine line) := inferInstanceAs (Decidable (_ = true))

/-- The line feeds and carriage returns at the end of a line. -/
def ending (line : Text) : Text := ((line.dropWhile isIndent).reverse.takeWhile isLineEnding).reverse

theorem isLineEnding_of_mem_ending {line : Text} : ∀ c ∈ ending line, isLineEnding c :=
  fun c hc => List.all_eq_true.1 List.all_takeWhile c (List.mem_reverse.1 hc)

theorem ending_suffix (line : Text) : ending line <:+ line :=
  List.IsSuffix.trans ⟨_, trimEnd_append ..⟩ (List.dropWhile_suffix _)

end Text

namespace Profile

variable {P : Profile} {line rest : Text} {level : Nat}

/-! ## One line -/

/-- Of a line of blanks only its ending is left. -/
theorem indentLine_blank (h : Text.IsBlankLine line) : P.indentLine level line = Text.ending line := by
  rw [indentLine]
  exact (if_pos h).trans (Text.drop_trimEnd ..)

theorem indentLine_other (h : ¬Text.IsBlankLine line) :
    P.indentLine level line = P.layout.blanks level ++ line.dropWhile isIndent := by
  rw [indentLine]
  exact if_neg h

/-- A text of line endings is left as it is. -/
theorem indentLine_ending (h : ∀ c ∈ line, Text.isLineEnding c) : P.indentLine level line = line := by
  have hdrop : line.dropWhile isIndent = line := by
    cases line with
    | nil => rfl
    | cons c cs =>
      refine List.dropWhile_cons_of_neg ?_
      have hc := h c (List.mem_cons_self ..)
      simp only [Text.isLineEnding, Bool.or_eq_true, decide_eq_true_eq] at hc
      rcases hc with rfl | rfl <;> decide
  have htake : line.reverse.takeWhile Text.isLineEnding = line.reverse :=
    List.takeWhile_eq_self_iff.2 fun c hc => h c (List.mem_reverse.1 hc)
  have htrim : Text.trimEnd Text.isLineEnding line = [] := by
    rw [Text.trimEnd, List.dropWhile_eq_nil_iff.2 fun c hc => h c (List.mem_reverse.1 hc),
      List.reverse_nil]
  have hblank : Text.IsBlankLine line := by
    rw [Text.IsBlankLine, hdrop, htrim]
    rfl
  rw [indentLine_blank hblank, Text.ending, hdrop, htake, List.reverse_reverse]

/-- **A line that is indented stays as it is.** -/
theorem indentLine_indentLine (level : Nat) (line : Text) :
    P.indentLine level (P.indentLine level line) = P.indentLine level line := by
  by_cases h : Text.IsBlankLine line
  · rw [indentLine_blank h]
    exact indentLine_ending Text.isLineEnding_of_mem_ending
  · have hdrop : (P.layout.blanks level ++ line.dropWhile isIndent).dropWhile isIndent =
        line.dropWhile isIndent := by
      rw [List.dropWhile_append_of_pos (P.layout.isIndent_of_mem_blanks level)]
      exact List.dropWhile_idempotent ..
    have h' : ¬Text.IsBlankLine (P.layout.blanks level ++ line.dropWhile isIndent) := by
      rwa [Text.IsBlankLine, hdrop]
    rw [indentLine_other h, indentLine_other h', hdrop]

/-- Without its indentation a line ends as it did. -/
theorem dropWhile_isIndent_break (w : Text) :
    (w ++ ['\n']).dropWhile isIndent = w.dropWhile isIndent ++ ['\n'] := by
  rw [List.dropWhile_append]
  split
  · next h => rw [List.isEmpty_iff.1 h]; rfl
  · rfl

/-- A line that ends in a break keeps it. -/
theorem indentLine_break (P : Profile) (level : Nat) {w : Text} (hw : ∀ c ∈ w, c ≠ '\n') :
    ∃ w' : Text, (∀ c ∈ w', c ≠ '\n') ∧ P.indentLine level (w ++ ['\n']) = w' ++ ['\n'] := by
  have hdrop := dropWhile_isIndent_break w
  have hmem : ∀ c ∈ w.dropWhile isIndent, c ≠ '\n' := fun c hc => hw c ((List.dropWhile_sublist _).mem hc)
  by_cases h : Text.IsBlankLine (w ++ ['\n'])
  · refine ⟨((w.dropWhile isIndent).reverse.takeWhile Text.isLineEnding).reverse, fun c hc => ?_, ?_⟩
    · exact hmem c (List.mem_reverse.1 ((List.takeWhile_sublist _).mem (List.mem_reverse.1 hc)))
    · rw [indentLine_blank h, Text.ending, hdrop, List.reverse_append, List.reverse_cons,
        List.reverse_nil, List.nil_append, List.singleton_append,
        List.takeWhile_cons_of_pos (by decide), List.reverse_cons]
  · refine ⟨P.layout.blanks level ++ w.dropWhile isIndent, fun c hc => ?_, ?_⟩
    · rcases List.mem_append.1 hc with hc | hc
      · exact (isBlank_of_isIndent (P.layout.isIndent_of_mem_blanks level c hc)).2
      · exact hmem c hc
    · rw [indentLine_other h, hdrop, List.append_assoc]

/-- A line without a break gets none. -/
theorem indentLine_noBreak (P : Profile) (level : Nat) (hw : ∀ c ∈ line, c ≠ '\n') :
    ∀ c ∈ P.indentLine level line, c ≠ '\n' := by
  intro c hc
  by_cases h : Text.IsBlankLine line
  · rw [indentLine_blank h] at hc
    exact hw c ((Text.ending_suffix line).subset hc)
  · rw [indentLine_other h] at hc
    rcases List.mem_append.1 hc with hc | hc
    · exact (isBlank_of_isIndent (P.layout.isIndent_of_mem_blanks level c hc)).2
    · exact hw c ((List.dropWhile_sublist _).mem hc)

/-- A line of blanks holds blanks. -/
theorem isBlank_of_isBlankLine (h : Text.IsBlankLine line) : ∀ c ∈ line, isBlank c := by
  intro c hc
  rw [← List.takeWhile_append_dropWhile (p := isIndent) (l := line)] at hc
  rcases List.mem_append.1 hc with hc | hc
  · exact (isBlank_of_isIndent (List.all_eq_true.1 List.all_takeWhile c hc)).1
  · rw [← Text.trimEnd_append Text.isLineEnding (line.dropWhile isIndent)] at hc
    rcases List.mem_append.1 hc with hc | hc
    · exact List.all_eq_true.1 h c hc
    · exact isBlank_of_isLineEnding (Text.isLineEnding_of_mem_ending c hc)

section Invariant

variable {α : Type} {F : Text → α}

/-- What blanks at the front of a line do not change, taking its indentation away does not change. -/
theorem dropWhile_invariant
    (hF : ∀ {lead : Text}, (∀ c ∈ lead, isBlank c ∧ c ≠ '\n') → ∀ t, F (lead ++ t) = F t) (line : Text) :
    F (line.dropWhile isIndent) = F line := by
  have hlead : ∀ c ∈ line.takeWhile isIndent, isBlank c ∧ c ≠ '\n' :=
    fun c hc => isBlank_of_isIndent (List.all_eq_true.1 List.all_takeWhile c hc)
  have hkeeps := hF hlead (line.dropWhile isIndent)
  rw [List.takeWhile_append_dropWhile] at hkeeps
  exact hkeeps.symm

/-- **What blanks at the front of a line do not change, indenting it does not change.** -/
theorem indentLine_invariant
    (hF : ∀ {lead : Text}, (∀ c ∈ lead, isBlank c ∧ c ≠ '\n') → ∀ t, F (lead ++ t) = F t)
    (hline : Text.IsLine line rest) (level : Nat) : F (P.indentLine level line) = F line := by
  by_cases h : Text.IsBlankLine line
  · have hblank := isBlank_of_isBlankLine h
    have hblank' : ∀ c ∈ P.indentLine level line, isBlank c := by
      rw [indentLine_blank h]
      exact fun c hc => hblank c ((Text.ending_suffix line).subset hc)
    -- the blanks before a break do not show, so both lines are to `F` as the break alone
    rcases hline with ⟨w, hw, rfl⟩ | ⟨hw, -⟩
    · obtain ⟨w', hw', heq⟩ := P.indentLine_break level hw
      rw [heq] at hblank' ⊢
      rw [hF fun c hc => ⟨hblank c (List.mem_append_left _ hc), hw c hc⟩,
        hF fun c hc => ⟨hblank' c (List.mem_append_left _ hc), hw' c hc⟩]
    · have hnone := hF (fun c hc => ⟨hblank c hc, hw c hc⟩) []
      have hnone' := hF (fun c hc => ⟨hblank' c hc, P.indentLine_noBreak level hw c hc⟩) []
      rw [List.append_nil] at hnone hnone'
      rw [hnone, hnone']
  · rw [indentLine_other h, hF, dropWhile_invariant hF]
    exact fun c hc => isBlank_of_isIndent (P.layout.isIndent_of_mem_blanks level c hc)

end Invariant

/-- The indentation of a line does not show in its skeleton. -/
theorem skeleton_dropWhile (hm : ∀ c ∈ P.dialect.marker, ¬isBlank c) (line : Text) :
    P.dialect.skeleton (line.dropWhile isIndent) = P.dialect.skeleton line :=
  dropWhile_invariant (Dialect.skeleton_append hm) line

/-- Indenting a line does not change its skeleton. -/
theorem skeleton_indentLine (hm : ∀ c ∈ P.dialect.marker, ¬isBlank c) (hline : Text.IsLine line rest)
    (level : Nat) : P.dialect.skeleton (P.indentLine level line) = P.dialect.skeleton line :=
  indentLine_invariant (Dialect.skeleton_append hm) hline level

end Profile

/-! ## All lines -/

namespace Text

theorem lines_noBreak {w : Text} (hw : ∀ c ∈ w, c ≠ '\n') : lines w = [w].filter (· ≠ []) := by
  induction w with
  | nil => rfl
  | cons c w ih =>
    have hc : c ≠ '\n' := hw c (List.mem_cons_self ..)
    rw [lines, if_neg hc, ih fun x hx => hw x (List.mem_cons_of_mem _ hx)]
    cases w <;> simp

/-- Whether `new` may stand in the place of the line `old`: it ends in a break if `old` does, and holds
    no other break. -/
def KeepsBreak (old new : Text) : Prop :=
  (∀ w : Text, (∀ c ∈ w, c ≠ '\n') → old = w ++ ['\n'] →
    ∃ w' : Text, (∀ c ∈ w', c ≠ '\n') ∧ new = w' ++ ['\n']) ∧
  ((∀ c ∈ old, c ≠ '\n') → ∀ c ∈ new, c ≠ '\n')

/-- Lines that keep their breaks are the lines of the text they make; at most the last one is left
    without any character, and then it is gone. -/
theorem lines_flatten {t : Text} {ls : List Text} (h : List.Forall₂ KeepsBreak t.lines ls) :
    lines ls.flatten = ls.filter (· ≠ []) := by
  induction t using line_induction generalizing ls with
  | nil =>
    cases h
    rfl
  | line line rest hne hline hlines ih =>
    rw [hlines] at h
    obtain ⟨new, ls, ⟨hbreak, hnone⟩, hrest, rfl⟩ := List.forall₂_cons_left_iff.1 h
    rw [List.flatten_cons]
    rcases hline with ⟨w, hw, rfl⟩ | ⟨hw, rfl⟩
    · obtain ⟨w', hw', rfl⟩ := hbreak w hw rfl
      rw [lines_append_break hw', List.filter_cons_of_pos (by simp), ih hrest]
    · -- the last line
      cases hrest
      rw [List.flatten_nil, List.append_nil]
      exact lines_noBreak (hnone hw)

/-- Every line of a text is a line. -/
theorem isLine_of_mem_lines {t line : Text} (h : line ∈ lines t) : ∃ rest, IsLine line rest := by
  induction t using line_induction with
  | nil => cases h
  | line first rest hne hfirst hlines ih =>
    rw [hlines] at h
    rcases List.mem_cons.1 h with rfl | h
    · exact ⟨rest, hfirst⟩
    · exact ih h

end Text

namespace Profile

variable {P : Profile}

theorem length_levels (seen : List Token) (lines : List (List Token)) :
    (P.levels seen lines).length = lines.length := by
  induction lines generalizing seen with
  | nil => rfl
  | cons line lines ih => simp [levels, ih]

theorem indentBy_keepsBreak {levels : List Nat} {lines : List Text} (hlen : levels.length = lines.length) :
    List.Forall₂ Text.KeepsBreak lines (P.indentBy levels lines) := by
  induction lines generalizing levels with
  | nil =>
    rw [indentBy, List.zipWith_nil_right]
    exact .nil
  | cons line lines ih =>
    obtain ⟨level, levels, rfl⟩ := List.exists_cons_of_length_eq_add_one hlen
    refine .cons ⟨?_, P.indentLine_noBreak level⟩ (ih (by simpa using hlen))
    rintro w hw rfl
    exact P.indentLine_break level hw

/-- Indented lines are the lines of the indented text. -/
theorem lines_indentBy (t : Text) (levels : List Nat) (hlen : levels.length = t.lines.length) :
    Text.lines (P.indentBy levels t.lines).flatten = (P.indentBy levels t.lines).filter (· ≠ []) :=
  Text.lines_flatten (indentBy_keepsBreak hlen)

theorem skeleton_nil (d : Dialect) : d.skeleton [] = [] := by
  rw [Dialect.skeleton, Dialect.pieces]
  rfl

/-- Lines without any character may be left out. -/
theorem indentBy_filter (seen : List Token) (lines : List Text) :
    (P.indentBy (P.levels seen ((lines.filter (· ≠ [])).map P.dialect.skeleton))
        (lines.filter (· ≠ []))).flatten =
      (P.indentBy (P.levels seen (lines.map P.dialect.skeleton)) lines).flatten := by
  have hlater : ∀ ls : List Text, ((ls.filter (· ≠ [])).map P.dialect.skeleton).flatten =
      (ls.map P.dialect.skeleton).flatten := by
    intro ls
    induction ls with
    | nil => rfl
    | cons l ls ih => by_cases hl : l = [] <;> simpa [hl, skeleton_nil] using ih
  induction lines generalizing seen with
  | nil => rfl
  | cons line lines ih =>
    by_cases hline : line = []
    · have hempty : ∀ level, P.indentLine level [] = [] := fun level => indentLine_ending (by simp)
      simpa [hline, skeleton_nil, levels, indentBy, hempty] using ih seen
    · have hstep := ih (((P.dialect.skeleton line).map (Token.onLevel (P.levelIn seen
        (P.dialect.skeleton line) (lines.map P.dialect.skeleton).flatten))).reverse ++ seen)
      rw [List.filter_cons_of_pos (by simpa using hline), List.map_cons, List.map_cons, levels, levels,
        indentBy, indentBy, hlater, List.zipWith_cons_cons, List.zipWith_cons_cons, List.flatten_cons,
        List.flatten_cons]
      exact congrArg _ hstep

/-- No search for the indentation of a line of the text runs out of its budget. -/
def WithinBudget (P : Profile) (t : Text) : Prop :=
  ∀ p < t.size, (P.findIndentation (Buffer.ofText t) p).2.exhausted = false

instance (P : Profile) (t : Text) : Decidable (P.WithinBudget t) :=
  inferInstanceAs (Decidable (∀ p < t.size, _))

/-- Without a bound on the visits no search runs out. -/
theorem withinBudget_of_unlimited (h : P.layout.maxVisits = 0) (t : Text) : P.WithinBudget t :=
  fun p _ => Scanner.exhausted_eq_false ((findIndentation_follows p).budget.trans (scanner_budget h))

/-- Within its budget indenting goes by the levels of the lines. -/
theorem reindent_eq (hm : '\n' ∉ P.dialect.marker) {t : Text} (h : P.WithinBudget t) :
    P.reindent t =
      (P.indentBy (P.levels [] (t.lines.map P.dialect.skeleton)) t.lines).flatten := by
  have hstart : P.Indented (Buffer.ofText t) [] t [] [] :=
    ⟨rfl, fun _ => .inl rfl, rfl, Nat.le_refl 0, by simp⟩
  have hn : ∀ p < (Buffer.ofText t).size,
      (P.findIndentation (Buffer.ofText t) p).2.exhausted = false := h
  exact indentLines_eq hm hn hstart

theorem indentBy_map_skeleton (hm : ∀ c ∈ P.dialect.marker, ¬isBlank c) {levels : List Nat}
    {lines : List Text} (hlen : levels.length = lines.length)
    (hlines : ∀ line ∈ lines, ∃ rest, Text.IsLine line rest) :
    (P.indentBy levels lines).map P.dialect.skeleton = lines.map P.dialect.skeleton := by
  induction lines generalizing levels with
  | nil => simp [indentBy]
  | cons line lines ih =>
    obtain ⟨level, levels, rfl⟩ := List.exists_cons_of_length_eq_add_one hlen
    obtain ⟨rest, hline⟩ := hlines line (List.mem_cons_self ..)
    have hrest := ih (by simpa using hlen) fun l hl => hlines l (List.mem_cons_of_mem _ hl)
    rw [indentBy, List.zipWith_cons_cons, List.map_cons, List.map_cons, skeleton_indentLine hm hline]
    exact congrArg _ hrest

theorem indentBy_indentBy (levels : List Nat) (lines : List Text) :
    P.indentBy levels (P.indentBy levels lines) = P.indentBy levels lines := by
  induction levels generalizing lines with
  | nil => rfl
  | cons level levels ih =>
    cases lines with
    | nil => rfl
    | cons line lines =>
      simp only [indentBy, List.zipWith_cons_cons, indentLine_indentLine]
      exact congrArg _ (ih lines)

/-- **Indenting twice is indenting once**, for every marker without blanks and every layout, if there is
    no bound on the visits or no search of the two passes runs out of its budget. -/
theorem reindent_reindent (P : Profile) (t : Text) (hm : ∀ c ∈ P.dialect.marker, ¬isBlank c)
    (hbudget : P.layout.maxVisits = 0 ∨ P.WithinBudget t ∧ P.WithinBudget (P.reindent t)) :
    P.reindent (P.reindent t) = P.reindent t := by
  obtain ⟨h, h'⟩ : P.WithinBudget t ∧ P.WithinBudget (P.reindent t) := by
    rcases hbudget with h0 | h
    · exact ⟨withinBudget_of_unlimited h0 t, withinBudget_of_unlimited h0 _⟩
    · exact h
  have hbreak : '\n' ∉ P.dialect.marker := fun hmem => hm _ hmem (by decide)
  have hfirst := reindent_eq hbreak h
  have hlen : (P.levels [] (t.lines.map P.dialect.skeleton)).length = t.lines.length := by
    rw [length_levels, List.length_map]
  have hlines := P.lines_indentBy t _ hlen
  rw [← hfirst] at hlines
  calc P.reindent (P.reindent t)
      = (P.indentBy (P.levels [] ((P.reindent t).lines.map P.dialect.skeleton))
          (P.reindent t).lines).flatten := reindent_eq hbreak h'
    _ = (P.indentBy (P.levels [] ((P.indentBy (P.levels [] (t.lines.map P.dialect.skeleton))
          t.lines).map P.dialect.skeleton)) (P.indentBy (P.levels [] (t.lines.map P.dialect.skeleton))
          t.lines)).flatten := by rw [hlines, indentBy_filter]
    _ = (P.indentBy (P.levels [] (t.lines.map P.dialect.skeleton)) t.lines).flatten := by
      rw [indentBy_map_skeleton hm hlen fun line => Text.isLine_of_mem_lines, indentBy_indentBy]
    _ = P.reindent t := hfirst.symm

/-- Five visits are too few: once the second line is indented, a visit more is spent on the way from the
    third line back to the opener, and the second pass does not get there. -/
theorem reindent_twice_under_budget :
    let P : Profile := { layout := { maxVisits := 5 } }
    let t := "gsave\nx\ny".toList
    P.reindent t = "gsave\n    x\n    y".toList ∧
      P.reindent (P.reindent t) = "gsave\n    x\ny".toList ∧ P.reindent (P.reindent t) ≠ P.reindent t := by
  decide +kernel

/-- Six visits are enough. -/
theorem reindent_reindent_six_visits :
    let P : Profile := { layout := { maxVisits := 6 } }
    let t := "gsave\nx\ny".toList
    P.WithinBudget t ∧ P.WithinBudget (P.reindent t) ∧ P.reindent t = "gsave\n    x\n    y".toList ∧
      P.reindent (P.reindent t) = P.reindent t := by
  intro P t
  have hrun : P.dialect.marker.all (!isBlank ·) ∧ P.WithinBudget t ∧ P.WithinBudget (P.reindent t) ∧
      P.reindent t = "gsave\n    x\n    y".toList := by
    decide +kernel
  obtain ⟨hmarker, h, h', hvalue⟩ := hrun
  have hm : ∀ c ∈ P.dialect.marker, ¬isBlank c := by simpa using hmarker
  exact ⟨h, h', hvalue, reindent_reindent P t hm (.inr ⟨h, h'⟩)⟩

/-! ## Texts that differ in their indentation -/

/-- The lines of a text without its indentation. -/
theorem lines_flatten_text (t : Text) :
    Text.lines t.flatten = (t.lines.map (·.dropWhile isIndent)).filter (· ≠ []) := by
  have hkeeps : List.Forall₂ Text.KeepsBreak t.lines (t.lines.map (·.dropWhile isIndent)) := by
    refine List.forall₂_map_right_iff.2 (List.forall₂_same.2 fun line _ => ⟨?_, ?_⟩)
    · rintro w hw rfl
      exact ⟨w.dropWhile isIndent, fun c hc => hw c ((List.dropWhile_sublist _).mem hc),
        dropWhile_isIndent_break w⟩
    · exact fun hw c hc => hw c ((List.dropWhile_sublist _).mem hc)
  rw [Text.flatten, List.flatMap_def]
  exact Text.lines_flatten hkeeps

theorem indentLine_dropWhile (level : Nat) (line : Text) :
    P.indentLine level (line.dropWhile isIndent) = P.indentLine level line := by
  rw [indentLine, indentLine, List.dropWhile_idempotent]

theorem indentBy_map_dropWhile (levels : List Nat) (lines : List Text) :
    P.indentBy levels (lines.map (·.dropWhile isIndent)) = P.indentBy levels lines := by
  rw [indentBy, List.zipWith_map_right]
  simp only [indentLine_dropWhile]
  rfl

/-- **A text is indented as it is without its indentation.** -/
theorem reindent_flatten (hm : ∀ c ∈ P.dialect.marker, ¬isBlank c) (h0 : P.layout.maxVisits = 0)
    (t : Text) : P.reindent t.flatten = P.reindent t := by
  have hbreak : '\n' ∉ P.dialect.marker := fun hmem => hm _ hmem (by decide)
  have hskeletons : (t.lines.map (·.dropWhile isIndent)).map P.dialect.skeleton =
      t.lines.map P.dialect.skeleton := by
    rw [List.map_map]
    exact List.map_congr_left fun line _ => skeleton_dropWhile hm line
  calc P.reindent t.flatten
      = (P.indentBy (P.levels [] (t.flatten.lines.map P.dialect.skeleton)) t.flatten.lines).flatten :=
        reindent_eq hbreak (withinBudget_of_unlimited h0 _)
    _ = (P.indentBy (P.levels [] ((t.lines.map (·.dropWhile isIndent)).map P.dialect.skeleton))
          (t.lines.map (·.dropWhile isIndent))).flatten := by
      rw [lines_flatten_text, indentBy_filter]
    _ = (P.indentBy (P.levels [] (t.lines.map P.dialect.skeleton)) t.lines).flatten := by
      rw [hskeletons, indentBy_map_dropWhile]
    _ = P.reindent t := (reindent_eq hbreak (withinBudget_of_unlimited h0 t)).symm

/-- **Indenting gives a canonical form.**  Texts that are the same without the spaces and tabs at the
    front of their lines are indented to the same text; in particular a text is indented as it is
    without them. -/
theorem reindent_canonical (P : Profile) (hm : ∀ c ∈ P.dialect.marker, ¬isBlank c)
    (h0 : P.layout.maxVisits = 0) :
    (∀ t t' : Text, t.flatten = t'.flatten → P.reindent t = P.reindent t') ∧
      ∀ t : Text, P.reindent t.flatten = P.reindent t := by
  refine ⟨fun t t' h => ?_, reindent_flatten hm h0⟩
  rw [← reindent_flatten hm h0 t, h, reindent_flatten hm h0 t']

/-- A stray closer, an `else if` and a last line of blanks, indented in two ways. -/
theorem reindent_canonical_else_if :
    let P : Profile := { layout := { useTabs := true, maxVisits := 0 } }
    let t : Text := "next\nif a then\n  x\nelse if b then\n\t ".toList
    let t' : Text := "\t next\n if a then\nx\n  else if b then\n".toList
    t.flatten = t'.flatten ∧
      P.reindent t = "next\nif a then\n\tx\nelse if b then\n".toList ∧
      P.reindent t = P.reindent t' := by
  intro P t t'
  have hrun : P.dialect.marker.all (!isBlank ·) ∧ t.flatten = t'.flatten ∧
      P.reindent t = "next\nif a then\n\tx\nelse if b then\n".toList := by
    decide +kernel
  obtain ⟨hmarker, hflat, hvalue⟩ := hrun
  have hm : ∀ c ∈ P.dialect.marker, ¬isBlank c := by simpa using hmarker
  exact ⟨hflat, hvalue, (reindent_canonical P hm rfl).1 t t' hflat⟩

end Profile

end BlockScript
