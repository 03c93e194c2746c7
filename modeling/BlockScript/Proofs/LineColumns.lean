/-
  Lines and columns name offsets.

  A text before an offset is some whole lines and a front of one more (`exists_front`).  The line of the
  offset is the number of these lines, the column the length of the front (`lineColumn_front`).  The way
  back skips as many lines (`afterLines_sound`, `afterLines_append`) and adds the column.

  The sum is a number of 64 bits, taken before it is compared with the end of the line.  A column that is
  large enough makes it fail (`Overflows`).  Where it wraps instead it comes to an offset above the line
  (`Wraps`), where no comparison fails.  So the main result `offsetAt_lineColumn` has three parts: every
  offset is found again from its line and column; what is found from a line and a column has them; and where
  sums wrap, what is found has them or stands above the line.
-/
import BlockScript.Proofs.PlacedFindings

namespace BlockScript

namespace Text

variable {t a w rest : Text} {n line column o : Nat}

/-! ## Lines before a place -/

/-- Where a line starts after a text, one starts after a line and that text. -/
theorem EndsLine.after_line (h : EndsLine a) (w : Text) : EndsLine (w ++ ['\n'] ++ a) := by
  refine Or.inr ?_
  rcases h with rfl | hlast
  · simp
  · rw [List.getLast?_append, hlast, Option.some_or]

theorem count_line (hw : ∀ c ∈ w, c ≠ '\n') (t : Text) : (w ++ ['\n'] ++ t).count '\n' = t.count '\n' + 1 := by
  rw [List.count_append, List.count_append, count_break hw]
  show 0 + 1 + t.count '\n' = _
  omega

/-! ## From offsets to lines and columns -/

theorem size_reverse (t : Text) : size t.reverse = t.size := by
  induction t with
  | nil => rfl
  | cons c cs ih => rw [List.reverse_cons, size_append, ih, size_cons, size_cons, size_nil]; omega

/-- A text is some whole lines and the front of one more. -/
theorem exists_front (t : Text) : ∃ a w : Text, t = a ++ w ∧ a.EndsLine ∧ ∀ c ∈ w, c ≠ '\n' := by
  induction t using line_induction with
  | nil => exact ⟨[], [], rfl, Or.inl rfl, by simp⟩
  | line line rest hne hline hlines ih =>
    obtain ⟨a, w, rfl, ha, hw⟩ := ih
    rcases hline with ⟨u, hu, rfl⟩ | ⟨hu, hnil⟩
    · exact ⟨u ++ ['\n'] ++ a, w, by simp, ha.after_line u, hw⟩
    · exact ⟨[], line, by rw [hnil, List.append_nil, List.nil_append], Or.inl rfl, hu⟩

theorem takeWhile_reverse_front (ha : a.EndsLine) (hw : ∀ c ∈ w, c ≠ '\n') :
    (a ++ w).reverse.takeWhile (· ≠ '\n') = w.reverse := by
  rw [List.reverse_append, List.takeWhile_append_of_pos (by simpa using hw)]
  rcases ha with rfl | hlast
  · simp
  · obtain ⟨u, rfl⟩ := List.getLast?_eq_some_iff.1 hlast
    simp

/-- **The line of an offset counts the lines before it, the column what it has of its own line.** -/
theorem lineColumn_front (ha : a.EndsLine) (hw : ∀ c ∈ w, c ≠ '\n') (rest : Text) :
    lineColumn (a ++ (w ++ rest)) (a.size + w.size) = (a.count '\n' + 1, w.size + 1) := by
  have hupTo : upTo (a ++ (w ++ rest)) (a.size + w.size) = a ++ w := by
    rw [upTo, ← List.append_assoc, ← size_append, splitAt?_size_append]
    rfl
  unfold lineColumn
  rw [hupTo]
  dsimp only
  rw [takeWhile_reverse_front ha hw, size_reverse, List.count_append, count_break hw, Nat.add_zero]

/-! ## From lines and columns to offsets -/

/-- The first line of a text that has a break, and what follows it. -/
theorem firstLine_of_mem (h : '\n' ∈ t.firstLine) :
    ∃ w rest : Text, t = w ++ '\n' :: rest ∧ (∀ c ∈ w, c ≠ '\n') ∧ t.firstLine = w ++ ['\n'] := by
  have hne : t ≠ [] := by
    rintro rfl
    cases h
  obtain ⟨line, rest, rfl, -, hline, -⟩ := exists_isLine hne
  rw [hline.firstLine] at h ⊢
  rcases hline with ⟨w, hw, rfl⟩ | ⟨hw, -⟩
  · exact ⟨w, rest, by simp, hw, rfl⟩
  · exact absurd rfl (hw '\n' h)

/-- **Skipping lines leads to a place where a line starts, after as many breaks.** -/
theorem afterLines_sound {start : Nat} (h : afterLines n t = some (start, rest)) :
    ∃ a, t = a ++ rest ∧ a.size = start ∧ a.EndsLine ∧ a.count '\n' = n := by
  induction n generalizing t start with
  | zero =>
    cases h
    exact ⟨[], rfl, rfl, Or.inl rfl, rfl⟩
  | succ n ih =>
    rw [afterLines] at h
    dsimp only at h
    split at h
    · next hbreak =>
      obtain ⟨⟨start', rest'⟩, hrest, heq⟩ := Option.map_eq_some_iff.1 h
      cases heq
      obtain ⟨w, more, ht, hw, hline⟩ := firstLine_of_mem (List.contains_iff_mem.1 hbreak)
      have hdrop : t.drop t.firstLine.length = more := by
        rw [hline, ht]
        simp
      rw [hdrop] at hrest
      obtain ⟨a, ha, hsize, hends, hcount⟩ := ih hrest
      refine ⟨w ++ ['\n'] ++ a, ?_, ?_, hends.after_line w, by rw [count_line hw, hcount]⟩
      · rw [ht, ha]
        simp
      · rw [size_append, hsize, hline]
    · cases h

/-- Every such place is reached. -/
theorem afterLines_append (ha : a.EndsLine) (rest : Text) :
    afterLines (a.count '\n') (a ++ rest) = some (a.size, rest) := by
  induction a using line_induction with
  | nil => rfl
  | line line later hne hline hlines ih =>
    -- every line before a place where a line starts has a break
    rcases hline with ⟨w, hw, rfl⟩ | ⟨hw, rfl⟩
    · have hfirst : firstLine (w ++ ['\n'] ++ later ++ rest) = w ++ ['\n'] := by
        rw [List.append_assoc]
        exact IsLine.firstLine (.inl ⟨w, hw, rfl⟩)
      have hdrop : (w ++ ['\n'] ++ later ++ rest).drop (w ++ ['\n']).length = later ++ rest := by
        rw [List.append_assoc, List.drop_left]
      rw [count_line hw, afterLines, hfirst, if_pos (by simp), hdrop, ih ha.right, size_append (w ++ ['\n'])]
      rfl
    · rw [List.append_nil] at ha
      have hlast := ha.resolve_left hne
      exact absurd rfl (hw '\n' (List.mem_of_getLast? hlast))

/-- The offset of a column of a line that starts at `start`. -/
theorem offset_checked {start : Nat} (hcolumn : column ≠ 0) :
    (Arithmetic.checked.add? start column).bind (Arithmetic.checked.sub? · 1) =
      if start + column < UInt64.size then some (start + column - 1) else none := by
  rw [Arithmetic.add?]
  split
  · rw [Option.bind_some, Arithmetic.sub?, if_pos (by omega)]
  · rfl

theorem offset_wrapping {start : Nat} (hcolumn : column ≠ 0) :
    (Arithmetic.wrapping.add? start column).bind (Arithmetic.wrapping.sub? · 1) =
      some ((start + column - 1) % UInt64.size) := by
  rw [Arithmetic.add?, Option.bind_some, Arithmetic.sub?, Nat.mod_add_mod]
  have hsum : start + column + (UInt64.size - 1) = start + column - 1 + UInt64.size := by
    have : 0 < UInt64.size := by decide
    omega
  rw [hsum, Nat.add_mod_right]

/-- **What a line and a column come to**, given the line and what the sum comes to. -/
theorem offsetAt_append (ha : a.EndsLine) (hcolumn : column ≠ 0) (arithmetic : Arithmetic) :
    offsetAt (a ++ rest) (a.count '\n' + 1) column arithmetic =
      ((arithmetic.add? a.size column).bind (arithmetic.sub? · 1)).elim (.error .overflow) fun o =>
        if o ≤ a.size + size (rest.takeWhile (· ≠ '\n')) ∧ isBoundary (a ++ rest) o then .ok o
        else .error (.notOnLine (a.count '\n' + 1) column) := by
  rw [offsetAt, if_neg (by omega), Nat.add_sub_cancel, afterLines_append ha rest]
  dsimp only
  cases (arithmetic.add? a.size column).bind (arithmetic.sub? · 1) with
  | none => rfl
  | some o => simp only [Bool.and_eq_true, decide_eq_true_eq, Option.elim_some]

/-- A line and a column are found where the sum lies on the line or above it, and a character starts. -/
theorem offsetAt_eq_ok_iff (ha : a.EndsLine) (hcolumn : column ≠ 0) {arithmetic : Arithmetic} :
    offsetAt (a ++ rest) (a.count '\n' + 1) column arithmetic = .ok o ↔
      (arithmetic.add? a.size column).bind (arithmetic.sub? · 1) = some o ∧
        o ≤ a.size + size (rest.takeWhile (· ≠ '\n')) ∧ isBoundary (a ++ rest) o := by
  rw [offsetAt_append ha hcolumn]
  cases (arithmetic.add? a.size column).bind (arithmetic.sub? · 1) with
  | none => simp
  | some q =>
    rw [Option.elim_some]
    constructor
    · intro h
      split at h
      · next hfits =>
        cases h
        exact ⟨rfl, hfits⟩
      · cases h
    · rintro ⟨hq, hfits⟩
      cases hq
      rw [if_pos hfits]

/-- Only on a line of the text something is found, or the sum fails. -/
theorem exists_line_of_offsetAt {arithmetic : Arithmetic}
    (h : offsetAt t line column arithmetic = .ok o ∨ offsetAt t line column arithmetic = .error .overflow) :
    ∃ a rest : Text, t = a ++ rest ∧ a.EndsLine ∧ line = a.count '\n' + 1 ∧ column ≠ 0 := by
  unfold offsetAt at h
  split at h
  · simp at h
  · next hzero =>
    split at h
    · simp at h
    · next start rest hlines =>
      obtain ⟨a, rfl, -, ha, hcount⟩ := afterLines_sound hlines
      exact ⟨a, rest, rfl, ha, by omega, by omega⟩

/-! ## There and back -/

/-- Whether the start of a line and a column add up to more than 64 bits hold. -/
def Overflows (t : Text) (line column : Nat) : Prop :=
  ∃ a rest : Text, t = a ++ rest ∧ a.EndsLine ∧ line = a.count '\n' + 1 ∧
    UInt64.size ≤ a.size + column

/-- Whether the start of a line and a column add up to offset `o` once around the numbers of 64 bits. -/
def Wraps (t : Text) (line column o : Nat) : Prop :=
  ∃ a rest : Text, t = a ++ rest ∧ a.EndsLine ∧ line = a.count '\n' + 1 ∧
    a.size + column = UInt64.size + o + 1

/-- An offset on a line, at a character, is a front of the line away from its start. -/
theorem exists_front_of_le (hle : a.size ≤ o) (hstop : o ≤ a.size + size (rest.takeWhile (· ≠ '\n')))
    (ho : isBoundary (a ++ rest) o) :
    ∃ w behind : Text, rest = w ++ behind ∧ (∀ c ∈ w, c ≠ '\n') ∧ o = a.size + w.size := by
  obtain ⟨⟨before, behind⟩, hcut⟩ := Option.isSome_iff_exists.1 ho
  obtain ⟨htext, rfl⟩ := splitAt?_append hcut
  obtain ⟨w, rfl, rfl⟩ : ∃ w, before = a ++ w ∧ rest = w ++ behind := by
    rcases List.append_eq_append_iff.1 htext with ⟨x, rfl, rfl⟩ | ⟨x, rfl, rfl⟩
    · obtain rfl : x = [] := by
        by_contra hne
        have := size_pos hne
        rw [size_append] at hle
        omega
      exact ⟨[], by simp, by simp⟩
    · exact ⟨x, rfl, rfl⟩
  refine ⟨w, behind, rfl, ?_, size_append a w⟩
  -- a break in `w` would end the line before the offset
  intro c hc hbreak
  obtain ⟨u, v, rfl, hu⟩ := List.eq_append_cons_of_mem (hbreak ▸ hc)
  have htake : (u ++ '\n' :: v ++ behind).takeWhile (· ≠ '\n') = u := by
    rw [List.append_assoc, List.cons_append]
    exact takeWhile_ne_append (fun x hx h => hu (by rwa [← h])) _
  rw [htake, size_append, size_append, size_cons] at hstop
  have := ('\n').utf8Size_pos
  omega

theorem offsetAt_lineColumn_of_lt (ht : t.size + 1 < UInt64.size) (ho : t.isBoundary o)
    (arithmetic : Arithmetic) :
    t.offsetAt (t.lineColumn o).1 (t.lineColumn o).2 arithmetic = .ok o := by
  obtain ⟨⟨before, rest⟩, hcut⟩ := Option.isSome_iff_exists.1 ho
  obtain ⟨rfl, rfl⟩ := splitAt?_append hcut
  obtain ⟨a, w, rfl, ha, hw⟩ := exists_front before
  rw [size_append, size_append] at ht
  have hsum : (arithmetic.add? a.size (w.size + 1)).bind (arithmetic.sub? · 1) = some (a.size + w.size) := by
    cases arithmetic with
    | checked => rw [offset_checked (Nat.succ_ne_zero _), if_pos (by omega)]; rfl
    | wrapping =>
      rw [offset_wrapping (Nat.succ_ne_zero _), Nat.mod_eq_of_lt (by omega)]
      rfl
  rw [size_append, List.append_assoc, lineColumn_front ha hw, offsetAt_eq_ok_iff ha (Nat.succ_ne_zero _)]
  rw [List.takeWhile_append_of_pos (by simpa using hw), size_append, ← List.append_assoc, ← size_append]
  rw [size_append]
  refine ⟨hsum, by omega, ?_⟩
  rw [← size_append]
  exact Diagnostic.isBoundary_append _ _

/-- A sum that wraps leads above the line. -/
theorem Wraps.above (h : t.Wraps line column o) (hcolumn : column < UInt64.size) (ho : t.isBoundary o) :
    (t.lineColumn o).1 < line := by
  obtain ⟨a, rest, rfl, ha, rfl, hsum⟩ := h
  obtain ⟨⟨before, behind⟩, hcut⟩ := Option.isSome_iff_exists.1 ho
  obtain ⟨htext, rfl⟩ := splitAt?_append hcut
  obtain ⟨x, rfl, -⟩ : ∃ x, a = before ++ x ∧ x ++ rest = behind := by
    rcases List.append_eq_append_iff.1 htext with ⟨x, rfl, rfl⟩ | ⟨x, rfl, rfl⟩
    · exact ⟨x, rfl, rfl⟩
    · rw [size_append] at hsum
      omega
  have hx : x ≠ [] := by
    rintro rfl
    rw [List.append_nil] at hsum
    omega
  -- what stands between the offset and the line ends in a break
  have hmem : '\n' ∈ x := List.mem_of_getLast? (ha.right.resolve_left hx)
  have hcount : 0 < x.count '\n' := List.count_pos_iff.2 hmem
  obtain ⟨u, w, rfl, hu, hw⟩ := exists_front before
  rw [List.append_assoc, List.append_assoc, size_append, lineColumn_front hu hw, List.count_append,
    List.count_append, count_break hw]
  show u.count '\n' + 1 < _
  omega

/-- An offset found on its line has the line and the column. -/
theorem lineColumn_of_found (ha : a.EndsLine) (hcolumn : column ≠ 0)
    (hstop : a.size + column - 1 ≤ a.size + size (rest.takeWhile (· ≠ '\n')))
    (ho : isBoundary (a ++ rest) (a.size + column - 1)) :
    lineColumn (a ++ rest) (a.size + column - 1) = (a.count '\n' + 1, column) := by
  obtain ⟨w, behind, rfl, hw, hw'⟩ := exists_front_of_le (by omega) hstop ho
  rw [hw', lineColumn_front ha hw]
  exact Prod.ext rfl (by show w.size + 1 = _; omega)

/-- **What is found has the line and the column** that it was asked for with. -/
theorem offsetAt_sound (ht : t.size + 1 < UInt64.size) :
    t.offsetAt line column = .ok o ↔ t.isBoundary o ∧ t.lineColumn o = (line, column) := by
  constructor
  · intro h
    obtain ⟨a, rest, rfl, ha, rfl, hcolumn⟩ := exists_line_of_offsetAt (.inl h)
    obtain ⟨hsum, hstop, ho⟩ := (offsetAt_eq_ok_iff ha hcolumn).1 h
    rw [offset_checked hcolumn] at hsum
    split at hsum
    · cases hsum
      exact ⟨ho, lineColumn_of_found ha hcolumn hstop ho⟩
    · cases hsum
  · rintro ⟨ho, hsame⟩
    have h := offsetAt_lineColumn_of_lt ht ho .checked
    rwa [hsame] at h

/-- The sum fails where it needs more than 64 bits, and nowhere else. -/
theorem offsetAt_overflow_iff (ht : t.size + 1 < UInt64.size) :
    t.offsetAt line column = .error .overflow ↔ t.Overflows line column := by
  constructor
  · intro h
    obtain ⟨a, rest, rfl, ha, rfl, hne⟩ := exists_line_of_offsetAt (o := 0) (.inr h)
    refine ⟨a, rest, rfl, ha, rfl, Nat.le_of_not_lt fun hlt => ?_⟩
    rw [offsetAt_append ha hne, offset_checked hne, if_pos hlt, Option.elim_some] at h
    split at h
    · cases h
    · cases h
  · rintro ⟨a, rest, rfl, ha, rfl, hsum⟩
    rw [size_append] at ht
    have hne : column ≠ 0 := by omega
    rw [offsetAt_append ha hne, offset_checked hne, if_neg (by omega), Option.elim_none]

/-- What is found where sums wrap: also the offsets that a sum wraps to. -/
theorem offsetAt_wrapping_iff (ht : t.size + 1 < UInt64.size) (hcolumn : column < UInt64.size) :
    t.offsetAt line column .wrapping = .ok o ↔
      t.isBoundary o ∧ (t.lineColumn o = (line, column) ∨ t.Wraps line column o) := by
  constructor
  · intro h
    obtain ⟨a, rest, rfl, ha, rfl, hne⟩ := exists_line_of_offsetAt (.inl h)
    obtain ⟨hsum, hstop, ho⟩ := (offsetAt_eq_ok_iff ha hne).1 h
    rw [offset_wrapping hne] at hsum
    refine ⟨ho, ?_⟩
    rw [size_append] at ht
    by_cases hfits : a.size + column - 1 < UInt64.size
    · -- the sum fits: it is the offset, on the line
      rw [Nat.mod_eq_of_lt hfits] at hsum
      cases hsum
      exact .inl (lineColumn_of_found ha hne hstop ho)
    · rw [Nat.mod_eq_sub_mod (by omega), Nat.mod_eq_of_lt (by omega)] at hsum
      have hoffset := Option.some.inj hsum
      exact .inr ⟨a, rest, rfl, ha, rfl, by omega⟩
  · rintro ⟨ho, hsame | ⟨a, rest, rfl, ha, rfl, hsum⟩⟩
    · have h := offsetAt_lineColumn_of_lt ht ho .wrapping
      rwa [hsame] at h
    · rw [size_append] at ht
      have hne : column ≠ 0 := by omega
      have hwrapped : a.size + column - 1 = o + UInt64.size := by omega
      rw [offsetAt_eq_ok_iff ha hne, offset_wrapping hne, hwrapped, Nat.add_mod_right, Nat.mod_eq_of_lt (by omega)]
      exact ⟨rfl, by omega, ho⟩

/-- **Lines and columns name offsets.**  In a text whose offsets are numbers of 64 bits, also the one behind
    its end, every offset of a character is found again from its line and column.  What is found from a line
    and a column of 64 bits is the offset of a character that has them; the sum fails exactly where it needs
    more than 64 bits.  Were sums to wrap, what is found would have the line and the column, or the sum has
    wrapped; then it stands above the line. -/
theorem offsetAt_lineColumn (t : Text) (ht : t.size + 1 < UInt64.size) :
    (∀ arithmetic o, t.isBoundary o →
      t.offsetAt (t.lineColumn o).1 (t.lineColumn o).2 arithmetic = .ok o) ∧
    ∀ (line column : UInt64) (o : Nat),
      (t.offsetAt line.toNat column.toNat = .ok o ↔
        t.isBoundary o ∧ t.lineColumn o = (line.toNat, column.toNat)) ∧
      (t.offsetAt line.toNat column.toNat = .error .overflow ↔ t.Overflows line.toNat column.toNat) ∧
      (t.offsetAt line.toNat column.toNat .wrapping = .ok o ↔
        t.isBoundary o ∧
          (t.lineColumn o = (line.toNat, column.toNat) ∨ t.Wraps line.toNat column.toNat o)) ∧
      (t.isBoundary o → t.Wraps line.toNat column.toNat o → (t.lineColumn o).1 < line.toNat) :=
  ⟨fun arithmetic _ ho => offsetAt_lineColumn_of_lt ht ho arithmetic, fun _ column _ =>
    ⟨offsetAt_sound ht, offsetAt_overflow_iff ht, offsetAt_wrapping_iff ht column.toNat_lt_size,
      fun ho hwraps => hwraps.above column.toNat_lt_size ho⟩⟩

/-- The break of a line, the empty last line, and a column behind a character of two bytes. -/
theorem offsetAt_lineColumn_breaks :
    let t : Text := "é\nab\n".toList
    t.size + 1 < UInt64.size ∧
      [0, 2, 3, 5, 6].map t.lineColumn = [(1, 1), (1, 3), (2, 1), (2, 3), (3, 1)] ∧
      t.offsetAt 1 3 = .ok 2 ∧ t.offsetAt 3 1 = .ok 6 ∧ t.offsetAt 1 2 ≠ .ok 1 := by
  intro t
  have ht : t.size + 1 < UInt64.size := by decide
  have hcolumns : [0, 2, 3, 5, 6].map t.lineColumn = [(1, 1), (1, 3), (2, 1), (2, 3), (3, 1)] := by decide
  obtain ⟨hfound, hsound⟩ := offsetAt_lineColumn t ht
  refine ⟨ht, hcolumns, hfound .checked 2 (by decide), hfound .checked 6 (by decide), fun h => ?_⟩
  have hboundary := ((hsound 1 2 1).1.1 h).1
  revert hboundary
  decide

/-- **A column far to the right of a line is not refused**: counted from the start of the second line it needs
    more than 64 bits.  Where the sum wraps it finds the first offset of the text. -/
theorem column_overflows_on_second_line :
    let t : Text := "sub main\nend sub\n".toList
    t.offsetAt 2 18446744073709551608 = .error .overflow ∧
      t.offsetAt 2 18446744073709551608 .wrapping = .ok 0 ∧ t.lineColumn 0 = (1, 1) := by
  decide

end Text

end BlockScript
