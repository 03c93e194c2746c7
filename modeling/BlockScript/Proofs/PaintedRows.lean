/-
  Painting a window of a text.

  The rows of a text stand apart from each other (`rowsFrom_apart`), and every span lies inside its row
  (`literalsOfRow_inside`, `paintRow_inside`).  So whether a keyword is hidden by a string or a comment is
  settled on its own row (`visible_eq`), and a row that a window does not touch has no span in it.

  The main result is `paint_window`: painting a window gives what cutting the window out of the painted
  text gives.
-/
import BlockScript.Paint.Painter
import BlockScript.Proofs.LineLookup
import Mathlib.Data.List.Basic
import Mathlib.Data.List.Pairwise

namespace BlockScript

/-! ## Rows -/

namespace Text

variable {t row : Text} {p : Nat}

/-- Whether `row` is a row of the text at offset `p`: a line starts there, and a break or the end of the
    text ends the row. -/
def RowAt (t : Text) (p : Nat) (row : Text) : Prop :=
  ∃ before after : Text, t = before ++ (row ++ after) ∧ before.size = p ∧ before.EndsLine ∧
    (∀ c ∈ row, c ≠ '\n') ∧ (after = [] ∨ after.head? = some '\n')

theorem RowAt.stop_le (h : t.RowAt p row) : p + size row ≤ size t := by
  obtain ⟨before, after, rfl, rfl, -⟩ := h
  simp only [size_append]
  omega

theorem rowsFrom_noBreak {w : Text} (hw : ∀ c ∈ w, c ≠ '\n') (p : Nat) : rowsFrom p w = [(p, w)] := by
  induction w generalizing p with
  | nil => rfl
  | cons c w ih =>
    have hc : c ≠ '\n' := hw c (List.mem_cons_self ..)
    rw [rowsFrom, if_neg hc, ih fun x hx => hw x (List.mem_cons_of_mem _ hx)]

theorem rowsFrom_break {w : Text} (hw : ∀ c ∈ w, c ≠ '\n') (p : Nat) (rest : Text) :
    rowsFrom p (w ++ ['\n'] ++ rest) = (p, w) :: rowsFrom (p + size (w ++ ['\n'])) rest := by
  induction w generalizing p with
  | nil => rfl
  | cons c w ih =>
    have hc : c ≠ '\n' := hw c (List.mem_cons_self ..)
    have hmove : p + c.utf8Size + size (w ++ ['\n']) = p + size (c :: w ++ ['\n']) := by
      rw [List.cons_append, size_cons]
      omega
    rw [← hmove, List.cons_append, List.cons_append, rowsFrom, if_neg hc,
      ih fun x hx => hw x (List.mem_cons_of_mem _ hx)]

/-- What is listed as a row of a text is one. -/
theorem rowAt_of_mem_rowsFrom {before : Text} (hl : before.EndsLine) {r : Nat × Text}
    (h : r ∈ rowsFrom before.size t) : (before ++ t : Text).RowAt r.1 r.2 := by
  induction t using line_induction generalizing before with
  | nil =>
    obtain rfl := List.mem_singleton.1 h
    exact ⟨before, [], rfl, rfl, hl, by simp, Or.inl rfl⟩
  | line line rest hne hline hlines ih =>
    rcases hline with ⟨w, hw, rfl⟩ | ⟨hw, rfl⟩
    · rw [rowsFrom_break hw] at h
      rcases List.mem_cons.1 h with rfl | h
      · exact ⟨before, '\n' :: rest, by simp, rfl, hl, hw, Or.inr rfl⟩
      · have hends : EndsLine (before ++ (w ++ ['\n'])) := Or.inr (by simp)
        rw [← size_append] at h
        have hrest := ih hends h
        rwa [List.append_assoc] at hrest
    · rw [List.append_nil, rowsFrom_noBreak hw] at h
      obtain rfl := List.mem_singleton.1 h
      exact ⟨before, [], rfl, rfl, hl, hw, Or.inl rfl⟩

theorem le_of_mem_rowsFrom {r : Nat × Text} (h : r ∈ rowsFrom p t) : p ≤ r.1 := by
  induction t using line_induction generalizing p with
  | nil =>
    obtain rfl := List.mem_singleton.1 h
    exact Nat.le_refl _
  | line line rest hne hline hlines ih =>
    rcases hline with ⟨w, hw, rfl⟩ | ⟨hw, rfl⟩
    · rw [rowsFrom_break hw] at h
      rcases List.mem_cons.1 h with rfl | h
      · exact Nat.le_refl _
      · exact Nat.le_trans (Nat.le_add_right ..) (ih h)
    · rw [List.append_nil, rowsFrom_noBreak hw] at h
      obtain rfl := List.mem_singleton.1 h
      exact Nat.le_refl _

/-- Two rows that share no offset, not even at their ends. -/
def RowsApart (r r' : Nat × Text) : Prop := r.1 + size r.2 < r'.1 ∨ r'.1 + size r'.2 < r.1

instance : Std.Symm RowsApart := ⟨fun _ _ h => Or.symm h⟩

/-- **Rows stand apart**: at least a break lies between any two. -/
theorem rowsFrom_apart (p : Nat) (t : Text) : (rowsFrom p t).Pairwise RowsApart := by
  induction t using line_induction generalizing p with
  | nil => exact List.pairwise_singleton ..
  | line line rest hne hline hlines ih =>
    rcases hline with ⟨w, hw, rfl⟩ | ⟨hw, rfl⟩
    · rw [rowsFrom_break hw]
      refine List.pairwise_cons.2 ⟨fun r hr => Or.inl ?_, ih _⟩
      have hle := le_of_mem_rowsFrom hr
      have hbreak : size ['\n'] = 1 := rfl
      rw [size_append] at hle
      show p + size w < r.1
      omega
    · rw [List.append_nil, rowsFrom_noBreak hw]
      exact List.pairwise_singleton ..

/-- The row without carriage returns at its end. -/
def trimRow (row : Text) : Text := trimEnd (· = '\r') row

theorem trimRow_append (row : Text) :
    ∃ ending : Text, row = trimRow row ++ ending ∧ ∀ c ∈ ending, c = '\r' := by
  refine ⟨(row.reverse.takeWhile (· = '\r')).reverse, (trimEnd_append ..).symm, fun c hc => ?_⟩
  simpa using List.all_eq_true.1 List.all_takeWhile c (List.mem_reverse.1 hc)

/-- Whether a window touches a row, ends included. -/
def touches (t : Text) (start stop : Nat) (r : Nat × Text) : Bool :=
  min start (min stop t.size) ≤ r.1 + size r.2 && r.1 ≤ min stop t.size

theorem rowsIn_eq (t : Text) (start stop : Nat) :
    t.rowsIn start stop =
      ((rowsFrom 0 t).filter (t.touches start stop)).map fun r => (r.1, trimRow r.2) := rfl

/-- The window of the whole text touches every row. -/
theorem rowsIn_all (t : Text) : t.rowsIn 0 t.size = (rowsFrom 0 t).map fun r => (r.1, trimRow r.2) := by
  rw [rowsIn_eq, List.filter_eq_self.2]
  intro r hr
  have hrow : RowAt ([] ++ t) r.1 r.2 := rowAt_of_mem_rowsFrom (Or.inl rfl) hr
  have hstop : r.1 + size r.2 ≤ size t := hrow.stop_le
  simp only [touches, Bool.and_eq_true, decide_eq_true_eq]
  omega

end Text

/-! ## Spans lie inside their rows -/

/-- Whether a span is not empty and lies between two offsets. -/
structure Span.Inside (s : Span) (start stop : Nat) : Prop where
  le_start : start ≤ s.start
  start_lt : s.start < s.stop
  stop_le : s.stop ≤ stop

theorem Span.Inside.mono {s : Span} {a a' b b' : Nat} (h : s.Inside a b) (ha : a' ≤ a) (hb : b ≤ b') :
    s.Inside a' b' :=
  ⟨Nat.le_trans ha h.le_start, h.start_lt, Nat.le_trans h.stop_le hb⟩

theorem Text.size_take_drop (t : Text) (m n : Nat) (h : m ≤ n) :
    size (t.take m) + size ((t.drop m).take (n - m)) = size (t.take n) := by
  rw [← size_append]
  congr 1
  have hsum : m + (n - m) = n := by omega
  rw [← List.take_add, hsum]

theorem Dialect.paintLiterals_inside (d : Dialect) (before : Option Char) (p n : Nat) (t : Text) :
    ∀ s ∈ d.paintLiterals before p n t, s.Inside p (p + Text.size (t.take n)) := by
  fun_induction paintLiterals d before p n t with
  | case1 => simp
  | case2 => simp
  | case3 before p n c cs hn hclass =>
    intro s hs
    obtain rfl := List.mem_singleton.1 hs
    have hpos : 0 < Text.size ((c :: cs).take n) := Text.size_pos (by simp [hn])
    exact ⟨Nat.le_refl _, by show p < p + _; omega, Nat.le_refl _⟩
  | case4 before p n c cs hn hclass m string ih =>
    have hm : m ≠ 0 ∧ m ≤ n := by omega
    have hpos : 0 < string.size := Text.size_pos (by simp [string, hm.1])
    have hsum : string.size + Text.size (((c :: cs).drop m).take (n - m)) = Text.size ((c :: cs).take n) :=
      Text.size_take_drop _ m n hm.2
    intro s hs
    rcases List.mem_cons.1 hs with rfl | hs
    · exact ⟨Nat.le_refl _, by show p < p + _; omega, by show p + _ ≤ _; omega⟩
    · exact (ih s hs).mono (Nat.le_add_right ..) (by omega)
  | case5 before p n c cs hn _ _ ih =>
    obtain ⟨k, rfl⟩ := Nat.exists_eq_succ_of_ne_zero hn
    intro s hs
    refine (ih s hs).mono (Nat.le_add_right ..) ?_
    show p + c.utf8Size + Text.size (cs.take k) ≤ p + Text.size (c :: cs.take k)
    rw [Text.size_cons]
    omega

/-- The strings and comments of a row lie inside it. -/
theorem Painter.literalsOfRow_inside (P : Painter) {t row : Text} {p : Nat} (h : t.RowAt p row) :
    ∀ s ∈ P.literalsOfRow t p (Text.trimRow row), s.Inside p (p + row.size) := by
  obtain ⟨before, after, rfl, rfl, -⟩ := h
  obtain ⟨ending, hrow, -⟩ := Text.trimRow_append row
  intro s hs
  rw [literalsOfRow, Text.splitAt?_size_append] at hs
  refine (P.dialect.paintLiterals_inside _ _ _ _ s hs).mono (Nat.le_refl _) ?_
  have hfront : row ++ after = Text.trimRow row ++ (ending ++ after) := by
    rw [← List.append_assoc, ← hrow]
  have hsize : row.size = (Text.trimRow row).size + ending.size := by
    rw [← Text.size_append, ← hrow]
  rw [hfront, List.take_left]
  omega

/-! ### Keywords -/

theorem hitHere_start {ignoreCase : Bool} {bs : List Branch} {before : Option Char} {p : Nat}
    {rest : Text} {h : Hit} (he : hitHere ignoreCase bs before p rest = some h) : h.start = p := by
  obtain ⟨b, -, rfl⟩ := Option.map_eq_some_iff.1 he
  rfl

theorem hitAnywhere_start {ignoreCase : Bool} {bs : List Branch} {rest : Text} {h : Hit} :
    ∀ {before : Option Char} {p : Nat}, hitAnywhere ignoreCase bs before p rest = some h →
      p ≤ h.start ∧ h.start < h.stop := by
  induction rest with
  | nil => intro before p he; cases he
  | cons c cs ih =>
    intro before p he
    rw [hitAnywhere] at he
    split at he
    · next hit hhere =>
      cases he
      have hstart := hitHere_start hhere
      have hstop := (hitHere_within hhere).lt_stop
      omega
    · have := ih he
      omega

theorem hitAfterBlanks_start {ignoreCase : Bool} {bs : List Branch} {rest : Text} {h : Hit} :
    ∀ {before : Option Char} {p : Nat}, hitAfterBlanks ignoreCase bs before p rest = some h →
      p ≤ h.start ∧ h.start < h.stop := by
  induction rest with
  | nil => intro before p he; cases he
  | cons c cs ih =>
    intro before p he
    rw [hitAfterBlanks] at he
    split at he
    · next hit hlater =>
      cases he
      split at hlater
      · have := ih hlater
        omega
      · cases hlater
    · have hstart := hitHere_start he
      have hstop := (hitHere_within he).lt_stop
      omega

namespace KeywordTree

/-- A hit of a level starts at the cursor or after it, and is not empty. -/
theorem find_start {t : KeywordTree} {ignoreCase : Bool} {line : Text} {cursor : Nat} {h : Hit}
    (he : t.find ignoreCase line cursor = some h) : cursor ≤ h.start ∧ h.start < h.stop := by
  unfold find at he
  split at he
  · cases he
  · split at he
    · exact hitAnywhere_start he
    · exact hitAfterBlanks_start he

/-- What is found from the cursor on lies between it and the end of the line, and the cursor does not
    move back. -/
def FoundFrom (line : Text) (cursor : Nat) (found : List Span × Nat) : Prop :=
  (∀ s ∈ found.1, s.Inside cursor line.size) ∧ cursor ≤ found.2

theorem foundFrom_nil (line : Text) (cursor : Nat) : FoundFrom line cursor ([], cursor) :=
  ⟨by simp, Nat.le_refl _⟩

theorem run_inside (t : KeywordTree) (ignoreCase : Bool) (line : Text) (cursor : Nat) :
    FoundFrom line cursor (t.run ignoreCase line cursor) := by
  fun_induction run t ignoreCase line cursor with
  | case1 t cursor hfind => exact foundFrom_nil line cursor
  | case2 t cursor hit hfind here below after heq hany others last hothers ih2 ih1 =>
    obtain ⟨hstart, hlt⟩ := find_start hfind
    have hstop := (find_within hfind).2.2
    -- the level below a hit starts at the end of the hit
    obtain ⟨hspans, hle⟩ : FoundFrom line hit.stop (below, after) := by
      rw [← heq]
      split
      · next next hnext => exact ih2 next hnext
      · exact foundFrom_nil line hit.stop
    rw [hothers] at ih1
    obtain ⟨hothers, hlast⟩ := ih1
    simp only at hspans hle hothers hlast
    refine ⟨fun s hs => ?_, by show cursor ≤ last; omega⟩
    rw [List.cons_append, List.mem_cons, List.mem_append] at hs
    rcases hs with rfl | hs | hs
    · exact ⟨hstart, hlt, hstop⟩
    · exact (hspans s hs).mono (by omega) (Nat.le_refl _)
    · exact (hothers s hs).mono (by omega) (Nat.le_refl _)
  | case3 t cursor hit hfind here below after heq hany ih =>
    obtain ⟨hstart, hlt⟩ := find_start hfind
    have hstop := (find_within hfind).2.2
    obtain ⟨hspans, hle⟩ : FoundFrom line hit.stop (below, after) := by
      rw [← heq]
      split
      · next next hnext => exact ih next hnext
      · exact foundFrom_nil line hit.stop
    simp only at hspans hle
    refine ⟨fun s hs => ?_, by show cursor ≤ after; omega⟩
    rcases List.mem_cons.1 hs with rfl | hs
    · exact ⟨hstart, hlt, hstop⟩
    · exact (hspans s hs).mono (by omega) (Nat.le_refl _)

end KeywordTree

/-- The keywords of a row lie inside it. -/
theorem Matcher.paintRow_inside (m : Matcher) (p : Nat) (row : Text) :
    ∀ s ∈ m.paintRow p row, s.Inside p (p + row.size) := by
  intro s hs
  obtain ⟨found, hfound, rfl⟩ := List.mem_map.1 hs
  have h := (m.tree.run_inside m.ignoreCase row 0).1 found hfound
  exact ⟨Nat.le_add_right .., Nat.add_lt_add_left h.start_lt p, Nat.add_le_add_left h.stop_le p⟩

/-! ## Painting row by row -/

namespace Painter

variable (P : Painter) (t : Text)

/-- The strings and comments of rows. -/
def literals (rows : List (Nat × Text)) : List Span :=
  rows.flatMap fun r => P.literalsOfRow t r.1 (Text.trimRow r.2)

/-- The keywords of rows, those that strings and comments hide included. -/
def keywords (rows : List (Nat × Text)) : List Span :=
  rows.flatMap fun r => P.matchers.flatMap (·.paintRow r.1 (Text.trimRow r.2))

/-- The keywords of rows that the strings and comments on them leave visible. -/
def visible (rows : List (Nat × Text)) : List Span :=
  (P.keywords rows).filter fun k => !(P.literals t rows).any (·.overlaps k.start k.stop)

/-- The spans of a text before they are put in order: those of each row, found on that row alone. -/
def spans : List Span :=
  P.literals t (t.rowsFrom 0) ++ (t.rowsFrom 0).flatMap fun r => P.visible t [r]

theorem paint_eq (start stop : Nat) :
    P.paint t start stop =
      let rows := (t.rowsFrom 0).filter (t.touches start stop)
      (((P.literals t rows ++ P.visible t rows).filter (·.overlaps start stop)).map
        (·.clip start stop)).mergeSort Span.le := by
  simp only [paint, Text.rowsIn_eq, List.flatMap_map]
  rfl

variable {P t}

theorem literals_inside {rows : List (Nat × Text)} (h : ∀ r ∈ rows, t.RowAt r.1 r.2) {s : Span}
    (hs : s ∈ P.literals t rows) : ∃ r ∈ rows, s ∈ P.literals t [r] ∧ s.Inside r.1 (r.1 + r.2.size) := by
  obtain ⟨r, hr, hs⟩ := List.mem_flatMap.1 hs
  refine ⟨r, hr, ?_, P.literalsOfRow_inside (h r hr) s hs⟩
  exact List.mem_flatMap.2 ⟨r, List.mem_singleton.2 rfl, hs⟩

theorem keywords_inside {r : Nat × Text} {s : Span} (hs : s ∈ P.keywords [r]) :
    s.Inside r.1 (r.1 + r.2.size) := by
  obtain ⟨r', hr, hrow⟩ := List.mem_flatMap.1 hs
  rw [List.mem_singleton.1 hr] at hrow
  obtain ⟨m, -, hfound⟩ := List.mem_flatMap.1 hrow
  obtain ⟨ending, hending, -⟩ := Text.trimRow_append r.2
  have hsize : r.2.size = (Text.trimRow r.2).size + ending.size := by
    rw [← Text.size_append, ← hending]
  exact (m.paintRow_inside _ _ s hfound).mono (Nat.le_refl _) (by omega)

/-- **What hides a keyword stands on its row.** -/
theorem visible_eq {rows : List (Nat × Text)} (h : ∀ r ∈ rows, t.RowAt r.1 r.2)
    (hapart : rows.Pairwise Text.RowsApart) :
    P.visible t rows = rows.flatMap fun r => P.visible t [r] := by
  have hsplit : P.keywords rows = rows.flatMap fun r => P.keywords [r] := by
    simp only [keywords, List.flatMap_singleton]
  rw [visible, hsplit, List.filter_flatMap]
  refine List.flatMap_congr fun r hr => List.filter_congr fun k hk => ?_
  have hin := keywords_inside hk
  congr 1
  refine Bool.eq_iff_iff.2 ?_
  simp only [List.any_eq_true]
  constructor
  · rintro ⟨s, hs, hover⟩
    obtain ⟨r', hr', hs', hin'⟩ := literals_inside h hs
    -- a row other than the keyword's is too far away
    have hsame : r' = r := by
      by_contra hne
      have := hapart.forall hr' hr hne
      have := hin.le_start
      have := hin.stop_le
      have := hin'.le_start
      have := hin'.stop_le
      simp only [Span.overlaps, Bool.and_eq_true, decide_eq_true_eq] at hover
      unfold Text.RowsApart at *
      omega
    exact ⟨s, hsame ▸ hs', hover⟩
  · rintro ⟨s, hs, hover⟩
    refine ⟨s, ?_, hover⟩
    obtain ⟨r', hr', hs⟩ := List.mem_flatMap.1 hs
    rw [List.mem_singleton.1 hr'] at hs
    exact List.mem_flatMap.2 ⟨r, hr, hs⟩

/-- A row that a window does not touch has no span in it. -/
theorem filter_flatMap_touches {f : Nat × Text → List Span} {start stop : Nat} (rows : List (Nat × Text))
    (hrows : ∀ r ∈ rows, t.RowAt r.1 r.2)
    (hf : ∀ r ∈ rows, ∀ s ∈ f r, s.Inside r.1 (r.1 + r.2.size)) :
    ((rows.filter (t.touches start stop)).flatMap f).filter (·.overlaps start stop) =
      (rows.flatMap f).filter (·.overlaps start stop) := by
  induction rows with
  | nil => rfl
  | cons r rows ih =>
    have hrest := ih (fun x hx => hrows x (List.mem_cons_of_mem _ hx))
      fun x hx => hf x (List.mem_cons_of_mem _ hx)
    rw [List.flatMap_cons, List.filter_append, ← hrest]
    by_cases htouch : t.touches start stop r
    · rw [List.filter_cons_of_pos htouch, List.flatMap_cons, List.filter_append]
    · have hnone : (f r).filter (·.overlaps start stop) = [] := by
        refine List.filter_eq_nil_iff.2 fun s hs hover => htouch ?_
        have hin := hf r (List.mem_cons_self ..) s hs
        have := hin.le_start
        have := hin.stop_le
        have := (hrows r (List.mem_cons_self ..)).stop_le
        simp only [Span.overlaps, Text.touches, Bool.and_eq_true, decide_eq_true_eq] at hover ⊢
        omega
      rw [List.filter_cons_of_neg htouch, hnone, List.nil_append]

theorem rowAt_of_mem {r : Nat × Text} (hr : r ∈ t.rowsFrom 0) : t.RowAt r.1 r.2 :=
  have hrow : ([] ++ t : Text).RowAt r.1 r.2 := Text.rowAt_of_mem_rowsFrom (Or.inl rfl) hr
  hrow

variable (P t)

/-- Painting a window shows the part of the text's spans that lies in it. -/
theorem paint_eq_spans (start stop : Nat) :
    P.paint t start stop =
      (((P.spans t).filter (·.overlaps start stop)).map (·.clip start stop)).mergeSort Span.le := by
  have hrows : ∀ r ∈ t.rowsFrom 0, t.RowAt r.1 r.2 := fun r => rowAt_of_mem
  have hvisible : P.visible t ((t.rowsFrom 0).filter (t.touches start stop)) =
      ((t.rowsFrom 0).filter (t.touches start stop)).flatMap fun r => P.visible t [r] :=
    visible_eq (fun r hr => hrows r (List.mem_filter.1 hr).1) ((Text.rowsFrom_apart 0 t).filter _)
  rw [paint_eq]
  dsimp only
  rw [hvisible, spans, List.filter_append, List.filter_append]
  congr 3
  · exact filter_flatMap_touches _ hrows fun r hr => P.literalsOfRow_inside (hrows r hr)
  · refine filter_flatMap_touches _ hrows fun r hr s hs => ?_
    exact keywords_inside (List.mem_filter.1 hs).1

theorem spans_inside {s : Span} (hs : s ∈ P.spans t) : s.Inside 0 t.size := by
  obtain ⟨r, hr, hin⟩ : ∃ r ∈ t.rowsFrom 0, s.Inside r.1 (r.1 + r.2.size) := by
    rcases List.mem_append.1 hs with hs | hs
    · obtain ⟨r, hr, -, hin⟩ := literals_inside (fun r => rowAt_of_mem) hs
      exact ⟨r, hr, hin⟩
    · obtain ⟨r, hr, hs⟩ := List.mem_flatMap.1 hs
      exact ⟨r, hr, keywords_inside (List.mem_filter.1 hs).1⟩
  exact hin.mono (Nat.zero_le _) (rowAt_of_mem hr).stop_le

/-- Painting the whole text shows all its spans, whole. -/
theorem paint_all : P.paint t 0 t.size = (P.spans t).mergeSort Span.le := by
  have hall : ∀ s ∈ P.spans t, s.overlaps 0 t.size := by
    intro s hs
    have hin := P.spans_inside t hs
    have := hin.start_lt
    have := hin.stop_le
    simp only [Span.overlaps, Bool.and_eq_true, decide_eq_true_eq]
    omega
  have hclip : (P.spans t).map (·.clip 0 t.size) = P.spans t := by
    refine (List.map_congr_left fun s hs => ?_).trans (List.map_id _)
    have hstop := (P.spans_inside t hs).stop_le
    show (⟨s.colour, max s.start 0, min s.stop t.size⟩ : Span) = s
    rw [Nat.max_eq_left (Nat.zero_le _), Nat.min_eq_left hstop]
  rw [paint_eq_spans, List.filter_eq_self.2 hall, hclip]

end Painter

namespace Span

theorem le_total (s s' : Span) : (s.le s' || s'.le s) = true := by
  simp only [le, Bool.or_eq_true, Bool.and_eq_true, decide_eq_true_eq]
  omega

theorem le_trans (s s' s'' : Span) : s.le s' = true → s'.le s'' = true → s.le s'' = true := by
  simp only [le, Bool.or_eq_true, Bool.and_eq_true, decide_eq_true_eq]
  omega

end Span

/-- **Painting a window is cutting it out of the painted text.**  Whatever the window, also if it is
    inverted, ends past the text or cuts a character, its spans are those of the whole text that have
    something in common with it, each cut to it, and they stand in order. -/
theorem Painter.paint_window (P : Painter) (t : Text) (start stop : Nat) :
    (P.paint t start stop).Perm
      (((P.paint t 0 t.size).filter fun s => s.start < stop ∧ start < s.stop).map fun s =>
        ⟨s.colour, max s.start start, min s.stop stop⟩) ∧
    (P.paint t start stop).Pairwise fun s s' =>
      s.start < s'.start ∨ s.start = s'.start ∧ s.stop ≤ s'.stop := by
  constructor
  · have hcut : ((P.paint t 0 t.size).filter fun s => s.start < stop ∧ start < s.stop) =
        (P.paint t 0 t.size).filter (·.overlaps start stop) := by
      simp only [Span.overlaps, Bool.decide_and]
    rw [hcut, paint_all, paint_eq_spans]
    exact (List.mergeSort_perm ..).trans (((List.mergeSort_perm ..).symm.filter _).map _)
  · have hsorted := List.pairwise_mergeSort Span.le_trans Span.le_total
      (((P.spans t).filter (·.overlaps start stop)).map (·.clip start stop))
    rw [← paint_eq_spans] at hsorted
    refine hsorted.imp fun {s s'} h => ?_
    simpa only [Span.le, Bool.or_eq_true, Bool.and_eq_true, decide_eq_true_eq] using h

end BlockScript
