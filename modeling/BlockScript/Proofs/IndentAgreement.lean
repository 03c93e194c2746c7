/-
  The two ways to the indentation of a line agree.

  A whole text is indented by levels: each line takes the level noted for the line it hangs on, and notes
  its own.  The indentation of one line is read off the text instead: the columns in front of the line it
  hangs on, over the columns of a unit.  In a text that is already indented both come to the same.

  1. **Lines hang on earlier lines** (`indentation_anchor`): on the line of a token before the line, and
     that token is an opener.
  2. **Levels noted** (`Tracks`): what is noted for the lines of the openers met so far.  One more line
     keeps it (`Tracks.next`), so a level that is looked up is always there (`indentLines?_eq`), and in an
     indented text it is the level that the blanks of the line show (`indented_line`).

  Columns are numbers of 64 bits, so the second way fails where the line that a deeper line hangs on takes
  more of them; this is the only place where the two differ (`reindent_agrees_with_indentOf`).  Indenting
  itself fails only where a line would take more blanks than a text can have (`tryReindent_eq_some_iff`).
-/
import BlockScript.Proofs.IndentFrame
import BlockScript.Proofs.IndentNesting
import BlockScript.Proofs.ScanLimit

namespace BlockScript

/-! ## Columns -/

namespace Layout

variable {l : Layout}

theorem unit_pos (l : Layout) : 0 < l.unit := by
  rw [unit]
  omega

/-- A text that starts with another character has no columns in front of it. -/
theorem leadingColumns_content {c : Char} (hc : ¬isIndent c) (cs : Text) :
    l.leadingColumns (c :: cs) = some 0 := by
  unfold leadingColumns
  split
  · next heq =>
    cases heq
    exact absurd rfl hc
  · next heq =>
    cases heq
    exact absurd rfl hc
  · rfl

/-- Columns in front of others: the sum of both, if it fits 64 bits. -/
theorem add?_columns (k m : Nat) :
    (if m < UInt64.size then some m else none).bind (Arithmetic.checked.add? k) =
      if k + m < UInt64.size then some (k + m) else none := by
  split
  · rfl
  · rw [Option.bind_none, if_neg (by omega)]

/-- **The columns of some levels of indentation**, if they fit 64 bits. -/
theorem leadingColumns_blanks {c : Char} (hc : ¬isIndent c) (n : Nat) (cs : Text) :
    l.leadingColumns (l.blanks n ++ c :: cs) =
      if n * l.unit < UInt64.size then some (n * l.unit) else none := by
  have hspaces : ∀ k, l.leadingColumns (List.replicate k ' ' ++ c :: cs) =
      if k < UInt64.size then some k else none := by
    intro k
    induction k with
    | zero => exact leadingColumns_content hc cs
    | succ k ih =>
      rw [List.replicate_succ, List.cons_append, leadingColumns, ih, add?_columns, Nat.add_comm]
  have htabs : ∀ k, l.leadingColumns (List.replicate k '\t' ++ c :: cs) =
      if k * l.unit < UInt64.size then some (k * l.unit) else none := by
    intro k
    induction k with
    | zero =>
      rw [Nat.zero_mul]
      exact leadingColumns_content hc cs
    | succ k ih =>
      rw [List.replicate_succ, List.cons_append, leadingColumns, ih, add?_columns, Nat.succ_mul, Nat.add_comm]
  rw [blanks]
  split
  · exact htabs n
  · exact hspaces (n * l.unit)

end Layout

/-! ## Lines hang on earlier lines -/

namespace Profile

variable {P : Profile} {b : Buffer} {w : Walk} {rev : List Token} {o : Token}

/-- Only an opener takes waiting closers. -/
theorem role_of_meet_empty {t : Token} {previous : Option Token} (hw : w.pending ≠ [])
    (h : (P.meet w (t.roleAfter previous) t).1.pending = []) : t.roleAfter previous = .opener := by
  unfold meet at h
  split at h
  · cases h
  · next hrole => exact hrole
  · exact absurd h hw

/-- Only an opener is unclosed. -/
theorem role_of_meet_unclosed {t : Token} {previous : Option Token}
    (h : (P.meet w (t.roleAfter previous) t).2 = true) : t.roleAfter previous = .opener := by
  unfold meet at h
  split at h
  · cases h
  · next hrole => exact hrole
  · cases h

/-- An opener after any token is one by its kind. -/
theorem role_of_roleAfter {t : Token} {previous : Option Token} (h : t.roleAfter previous = .opener) :
    t.kind.role = .opener := by
  rw [Token.roleAfter] at h
  split at h
  · cases h
  · exact h

theorem openerIn_role (hw : w.pending ≠ []) (h : P.openerIn w rev = some o) : o.kind.role = .opener := by
  induction rev generalizing w with
  | nil => cases h
  | cons t rev ih =>
    rw [openerIn] at h
    split at h
    · next hempty =>
      cases h
      exact role_of_roleAfter (role_of_meet_empty hw (List.isEmpty_iff.1 hempty))
    · next hleft => exact ih (fun heq => hleft (List.isEmpty_iff.2 heq)) h

theorem unclosedIn_role (h : (P.unclosedIn w rev).1 = some o) : o ∈ rev ∧ o.kind.role = .opener := by
  induction rev generalizing w with
  | nil => cases h
  | cons t rev ih =>
    rw [unclosedIn] at h
    dsimp only at h
    split at h
    · next hopen =>
      cases h
      exact ⟨List.mem_cons_self .., role_of_roleAfter (role_of_meet_unclosed hopen)⟩
    · exact (ih h).imp_left (List.mem_cons_of_mem _)

/-- What a line is aligned with is an opener before it. -/
theorem alignedIn_role {first : Token} {next : Option Token} (h : P.alignedIn rev first next = some o) :
    o ∈ rev ∧ o.kind.role = .opener := by
  have hsearch : ∀ c, P.openerIn { pending := [c] } rev = some o → o ∈ rev ∧ o.kind.role = .opener :=
    fun c hc => ⟨openerIn_mem hc, openerIn_role (by simp) hc⟩
  rw [alignedIn] at h
  split at h
  · exact hsearch _ h
  · split at h
    · exact hsearch _ h
    · split at h
      · split at h
        · cases h
        · exact hsearch _ h
      · cases h

/-- **A line hangs on an opener before it.** -/
theorem hangsOn_role {line later : List Token} (h : (P.hangsOn rev line later).1 = some o) :
    o ∈ rev ∧ o.kind.role = .opener := by
  rw [hangsOn] at h
  split at h
  · next haligned =>
    cases h
    obtain ⟨first, -, hfirst⟩ := Option.bind_eq_some_iff.1 haligned
    exact alignedIn_role hfirst
  · exact unclosedIn_role h

/-- **The line that a line hangs on is that of an opener before it.** -/
theorem indentation_anchor (h0 : P.layout.maxVisits = 0) {p a : Nat}
    (h : (P.indentation b p).anchor = some a) :
    ∃ o ∈ P.dialect.tokenize b.text, o.kind.role = .opener ∧ o.start < b.text.lineStart p ∧
      a = b.text.lineStart o.start := by
  obtain ⟨pre, line, later, hcut⟩ := P.dialect.exists_lineCut b p
  rw [indentation_of_lineCut h0 hcut] at h
  obtain ⟨o, ho, rfl⟩ := Option.map_eq_some_iff.1 h
  obtain ⟨hmem, hrole⟩ := hangsOn_role ho
  have hpre := List.mem_reverse.1 hmem
  have hbounds := hcut.before.bounds hpre
  refine ⟨o, ?_, hrole, by omega, rfl⟩
  rw [hcut.tokens]
  exact List.mem_append_left _ hpre

/-- The line that a line hangs on starts before it. -/
theorem anchor_lt (h0 : P.layout.maxVisits = 0) {p a : Nat} (h : (P.indentation b p).anchor = some a) :
    a < b.text.lineStart p ∧ b.text.lineStart a = a := by
  obtain ⟨o, -, -, hlt, rfl⟩ := indentation_anchor h0 h
  have hle := b.text.lineAt_start_le o.start
  exact ⟨Nat.lt_of_le_of_lt hle hlt, b.text.lineStart_lineStart o.start⟩

/-! ## Levels noted -/

/-- Indents the lines that start at offset `start` as `indentLines` does, but gives up on a line that
    hangs on one with no level noted. -/
def indentLines? (P : Profile) (b : Buffer) (levels : List (Nat × Nat)) (start : Nat) :
    List Text → Option Text
  | [] => some []
  | line :: ls => do
    let found := P.indentation b start
    let base ← found.anchor.elim (some 0) (levels.lookup ·)
    let level := base + found.delta
    let below ← P.indentLines? b ((start, level) :: levels) (start + line.size) ls
    return P.indentLine level line ++ below

/-- For the line of every opener in `pre` a level is noted, and the two satisfy `Q`. -/
def Tracks (b : Buffer) (found : List (Nat × Nat)) (pre : List Token) (Q : Nat → Nat → Prop) : Prop :=
  ∀ o ∈ pre, o.kind.role = .opener →
    ∃ n, found.lookup (b.text.lineStart o.start) = some n ∧ Q (b.text.lineStart o.start) n

variable {before line rest : Text} {found : List (Nat × Nat)} {pre : List Token} {Q : Nat → Nat → Prop}

/-- One more line with its level noted. -/
theorem Tracks.next (ht : Tracks b found pre Q) (h : P.Indented b before (line ++ rest) found pre)
    (hline : Text.IsLine line rest) {level : Nat}
    (hq : (∃ o ∈ P.dialect.tokensOf (place before.size (P.dialect.pieces none line).1),
      o.kind.role = .opener) → Q before.size level) :
    Tracks b ((before.size, level) :: found)
      (pre ++ P.dialect.tokensOf (place before.size (P.dialect.pieces none line).1)) Q := by
  intro o ho hrole
  rcases List.mem_append.1 ho with ho | ho
  · obtain ⟨n, hlookup, hn⟩ := ht o ho hrole
    have hbounds := h.laid.bounds ho
    have hle := b.text.lineAt_start_le o.start
    have hbeq : (b.text.lineStart o.start == before.size) = false := by
      rw [beq_eq_false_iff_ne, Text.lineStart]
      omega
    exact ⟨n, by rw [List.lookup_cons, hbeq]; exact hlookup, hn⟩
  · have hbounds := (Indented.line_laid P before.size hline).bounds ho
    have hstart := h.lineStart_eq hline hbounds.1 (by omega)
    rw [hstart]
    exact ⟨level, List.lookup_cons_self .., hq ⟨o, ho, hrole⟩⟩

/-- **The line that the next line hangs on has a level noted.** -/
theorem Tracks.anchor (ht : Tracks b found pre Q) (h : P.Indented b before (line ++ rest) found pre)
    (h0 : P.layout.maxVisits = 0) (hline : Text.IsLine line rest) (hne : line ≠ []) {a : Nat}
    (ha : (P.indentation b before.size).anchor = some a) :
    ∃ n, found.lookup a = some n ∧ Q a n := by
  have hpos := Text.size_pos hne
  obtain ⟨o, hmem, hrole, hlt, rfl⟩ := indentation_anchor h0 ha
  rw [h.lineStart_eq hline (Nat.le_refl _) (by omega)] at hlt
  have hpre : o ∈ pre := by
    rw [h.tokens] at hmem
    rcases List.mem_append.1 hmem with hmem | hmem
    · exact hmem
    · have := (P.dialect.tokenizeFrom_laid before.size (line ++ rest)).bounds hmem
      omega
  exact ht o hpre hrole

/-- **No level that is looked up is missing.** -/
theorem indentLines?_eq (hm : '\n' ∉ P.dialect.marker) (h0 : P.layout.maxVisits = 0) {before t : Text}
    {found : List (Nat × Nat)} {pre : List Token} (h : P.Indented b before t found pre)
    (ht : Tracks b found pre fun _ _ => True) :
    P.indentLines? b found before.size t.lines = some (P.indentLines b found before.size t.lines) := by
  induction t using Text.line_induction generalizing before found pre with
  | nil => rfl
  | line line rest hne hline hlines ih =>
    have hbase : (P.indentation b before.size).anchor.elim (some 0) (found.lookup ·) =
        some (((P.indentation b before.size).anchor.bind (found.lookup ·)).getD 0) := by
      cases ha : (P.indentation b before.size).anchor with
      | none => rfl
      | some a =>
        obtain ⟨n, hlookup, -⟩ := ht.anchor h h0 hline hne ha
        show found.lookup a = some ((found.lookup a).getD 0)
        rw [hlookup, Option.getD_some]
    have hrest := fun level => ih (h.next hm hline hne level) (ht.next h hline fun _ => trivial)
    simp only [Text.size_append] at hrest
    rw [hlines, indentLines?, indentLines, hbase]
    simp only [Option.bind_eq_bind, Option.bind_some, hrest]
    rfl

/-! ## Indented texts -/

/-- The line at offset `start` is indented by `n` units and not empty. -/
def Stands (P : Profile) (b : Buffer) (start n : Nat) : Prop :=
  ∃ c cs, b.text.slice start b.size = P.layout.blanks n ++ c :: cs ∧ ¬isIndent c

theorem Stands.leadingColumns {start n : Nat} (h : P.Stands b start n) :
    P.layout.leadingColumns (b.text.slice start b.size) =
      if n * P.layout.unit < UInt64.size then some (n * P.layout.unit) else none := by
  obtain ⟨c, cs, heq, hc⟩ := h
  rw [heq, Layout.leadingColumns_blanks hc]

/-- A line of blanks has no keywords. -/
theorem skeleton_blank (hm : ∀ c ∈ P.dialect.marker, ¬isBlank c) (hline : Text.IsLine line rest)
    (h : ∀ c ∈ line, isBlank c) : ∀ x ∈ P.dialect.skeleton line, x.kind = .separator := by
  have hbreak : '\n' ∉ P.dialect.marker := fun hmem => hm _ hmem (by decide)
  rcases hline with ⟨w, hw, rfl⟩ | ⟨hw, -⟩
  · have hlead : ∀ c ∈ w, isBlank c ∧ c ≠ '\n' := fun c hc => ⟨h c (List.mem_append_left _ hc), hw c hc⟩
    have hpieces := Dialect.pieces_break hbreak none (w := []) (by simp) []
    rw [List.nil_append, Dialect.pieces, List.nil_append] at hpieces
    rw [Dialect.skeleton_append hm hlead, Dialect.skeleton, hpieces]
    intro x hx
    have hx' : x ∈ [(⟨.separator, 0, 0, none⟩ : Token)] := hx
    rw [List.mem_singleton.1 hx']
  · have hlead : ∀ c ∈ line, isBlank c ∧ c ≠ '\n' := fun c hc => ⟨h c hc, hw c hc⟩
    have hnone := Dialect.skeleton_append hm hlead []
    rw [List.append_nil, skeleton_nil] at hnone
    simp [hnone]

/-- A line with an opener is not blank. -/
theorem not_blank_of_opener (hm : ∀ c ∈ P.dialect.marker, ¬isBlank c) (hline : Text.IsLine line rest)
    {p : Nat} (ho : o ∈ P.dialect.tokensOf (place p (P.dialect.pieces none line).1))
    (hrole : o.kind.role = .opener) : ¬∀ c ∈ line, isBlank c := by
  intro hblank
  have hmem : o.bare ∈ P.dialect.skeleton line := by
    rw [← Dialect.map_bare_tokensOf p]
    exact List.mem_map_of_mem ho
  have hkind : o.bare.kind = .separator := skeleton_blank hm hline hblank _ hmem
  rw [Token.bare] at hkind
  rw [hkind, TokenKind.role_eq] at hrole
  cases hrole

/-- **An indented line shows its level**: behind the blanks stands something else. -/
theorem exists_indentLine (P : Profile) (n : Nat) (hblank : ¬∀ c ∈ line, isBlank c) :
    ∃ c cs, P.indentLine n line = P.layout.blanks n ++ c :: cs ∧ ¬isIndent c := by
  rw [indentLine_other (mt (Text.isBlankLine_iff line).1 hblank)]
  cases hcontent : line.dropWhile isIndent with
  | nil =>
    refine absurd (fun c hc => ?_) hblank
    exact (isBlank_of_isIndent (List.dropWhile_eq_nil_iff.1 hcontent c hc)).1
  | cons c cs =>
    refine ⟨c, cs, rfl, ?_⟩
    have := List.head?_dropWhile_not isIndent line
    rw [hcontent] at this
    simpa using this

theorem takeWhile_indentLine (P : Profile) (n : Nat) (hblank : ¬∀ c ∈ line, isBlank c) :
    (P.indentLine n line).takeWhile isIndent = P.layout.blanks n := by
  obtain ⟨c, cs, heq, hc⟩ := exists_indentLine P n hblank
  rw [heq, List.takeWhile_append_of_pos (P.layout.isIndent_of_mem_blanks n), List.takeWhile_cons_of_neg hc,
    List.append_nil]

/-- A line stays blank or not. -/
theorem indentLine_blank_iff (P : Profile) (n : Nat) (line : Text) :
    (∀ c ∈ P.indentLine n line, isBlank c) ↔ ∀ c ∈ line, isBlank c := by
  by_cases hblank : ∀ c ∈ line, isBlank c
  · rw [indentLine_blank ((Text.isBlankLine_iff line).2 hblank)]
    exact iff_of_true (fun c hc => hblank c ((Text.ending_suffix line).subset hc)) hblank
  · refine iff_of_false (fun h => hblank fun c hc => ?_) hblank
    rw [indentLine_other (mt (Text.isBlankLine_iff line).1 hblank)] at h
    by_cases hindent : isIndent c
    · exact (isBlank_of_isIndent hindent).1
    · rw [← List.takeWhile_append_dropWhile (p := isIndent) (l := line)] at hc
      rcases List.mem_append.1 hc with hc | hc
      · exact absurd (List.mem_takeWhile_imp hc) hindent
      · exact h c (List.mem_append_right _ hc)

/-- Where indenting leaves a text alone, it leaves its first line alone and the rest. -/
theorem indented_first {n : Nat} {below : Text} (hline : Text.IsLine line rest)
    (hlast : rest = [] → below = []) (h : P.indentLine n line ++ below = line ++ rest) :
    P.indentLine n line = line ∧ below = rest := by
  rcases hline with ⟨w, hw, rfl⟩ | ⟨hw, rfl⟩
  · obtain ⟨w', hw', heq⟩ := P.indentLine_break n hw
    rw [heq] at h ⊢
    have hfirst := congrArg (List.takeWhile (· ≠ '\n')) h
    rw [List.append_assoc, List.append_assoc, List.singleton_append, List.singleton_append,
      Text.takeWhile_ne_append hw', Text.takeWhile_ne_append hw] at hfirst
    subst hfirst
    exact ⟨rfl, List.append_cancel_left h⟩
  · obtain rfl := hlast rfl
    exact ⟨by simpa using h, rfl⟩

/-- **The indentation of the next line as read off an indented text** is its level, if the columns of the
    line it hangs on and the level itself fit 64 bits. -/
theorem indentOf_eq_level (ht : Tracks b found pre (P.Stands b))
    (h : P.Indented b before (line ++ rest) found pre) (h0 : P.layout.maxVisits = 0)
    (hline : Text.IsLine line rest) (hne : line ≠ []) {n : Nat}
    (hn : n = ((P.indentation b before.size).anchor.bind (found.lookup ·)).getD 0 +
      (P.indentation b before.size).delta) :
    P.indentOf b before.size =
      if (n - (P.indentation b before.size).delta) * P.layout.unit < UInt64.size ∧ n < UInt64.size
      then some n else none := by
  subst hn
  rw [indentOf, Nat.add_sub_cancel]
  cases ha : (P.indentation b before.size).anchor with
  | none =>
    have hzero : 0 * P.layout.unit < UInt64.size := by
      rw [Nat.zero_mul]
      decide
    show Arithmetic.checked.add? 0 _ = if 0 * _ < UInt64.size ∧ 0 + _ < _ then some (0 + _) else none
    simp only [hzero, true_and]
    rfl
  | some a =>
    obtain ⟨m, hlookup, hstands⟩ := ht.anchor h h0 hline hne ha
    rw [Option.bind_some, hlookup, Option.getD_some]
    dsimp only
    rw [hstands.leadingColumns]
    by_cases hfits : m * P.layout.unit < UInt64.size
    · rw [if_pos hfits, Option.map_some, Nat.mul_div_cancel m P.layout.unit_pos, Option.bind_some]
      simp only [hfits, true_and]
      rfl
    · rw [if_neg hfits, Option.map_none, Option.bind_none, if_neg fun hboth => hfits hboth.1]

/-- Without a bound on the visits an indented text has the levels it is indented by. -/
theorem reindent_fixed (hm : ∀ c ∈ P.dialect.marker, ¬isBlank c) (h0 : P.layout.maxVisits = 0) (t : Text) :
    P.reindent (P.reindent t) = P.reindent t := by
  have hbreak : '\n' ∉ P.dialect.marker := fun hmem => hm _ hmem (by decide)
  have hby := fun t => reindent_eq hbreak (withinBudget_of_unlimited h0 t)
  have hlen : (P.levels [] (t.lines.map P.dialect.skeleton)).length = t.lines.length := by
    rw [length_levels, List.length_map]
  rw [hby (P.reindent t), hby t, P.lines_indentBy t _ hlen, indentBy_filter,
    indentBy_map_skeleton hm hlen fun line => Text.isLine_of_mem_lines, indentBy_indentBy]

/-- **The lines of an indented text.**  Every line that is not blank shows a level, and this level is the
    indentation of the line, if the columns of the line it hangs on and the level itself fit 64 bits. -/
theorem indented_line (hm : ∀ c ∈ P.dialect.marker, ¬isBlank c) (h0 : P.layout.maxVisits = 0)
    {before t : Text} {found : List (Nat × Nat)} {pre : List Token} (h : P.Indented b before t found pre)
    (ht : Tracks b found pre (P.Stands b)) (hfix : P.indentLines b found before.size t.lines = t)
    {a line rest : Text} (htext : b.text = a ++ (line ++ rest)) (ha : a.EndsLine)
    (hline : Text.IsLine line rest) (hblank : ¬∀ c ∈ line, isBlank c) (hle : before.size ≤ a.size) :
    ∃ n, line.takeWhile isIndent = P.layout.blanks n ∧
      P.indentOf b a.size =
        if (n - (P.indentation b a.size).delta) * P.layout.unit < UInt64.size ∧ n < UInt64.size
        then some n else none := by
  have hbreak : '\n' ∉ P.dialect.marker := fun hmem => hm _ hmem (by decide)
  have hne : line ≠ [] := by
    rintro rfl
    exact hblank (by simp)
  have hpos := Text.size_pos hne
  -- the lines from `before` on are done one by one, up to the line asked for
  induction t using Text.line_induction generalizing before found pre with
  | nil =>
    have hsize := congrArg Text.size (h.text.symm.trans htext)
    simp only [Text.size_append, List.append_nil] at hsize
    omega
  | line first more hfirstne hfirst hlines ih =>
    rw [hlines, indentLines] at hfix
    generalize hn : ((P.indentation b before.size).anchor.bind (found.lookup ·)).getD 0 +
      (P.indentation b before.size).delta = n at hfix
    obtain ⟨hkeeps, hbelow⟩ := indented_first hfirst (by rintro rfl; rfl) hfix
    by_cases hhere : a.size < before.size + Text.size first
    · -- this is the line
      have hfirstpos := Text.size_pos hfirstne
      have hsame := Text.line_unique (htext.symm.trans h.text) ha (h.ends (by simp [hfirstne]))
        (Nat.le_refl a.size) (by rw [hline.firstLine]; omega) hle (by rw [hfirst.firstLine]; omega)
      obtain ⟨rfl, hrest⟩ := hsame
      have hlineeq : line = first := by
        rw [← hline.firstLine, hrest, hfirst.firstLine]
      subst hlineeq
      refine ⟨n, ?_, indentOf_eq_level ht h h0 hfirst hne hn.symm⟩
      rw [← takeWhile_indentLine P n hblank, hkeeps]
    · have hstands : (∃ o ∈ P.dialect.tokensOf (place before.size (P.dialect.pieces none first).1),
          o.kind.role = .opener) → P.Stands b before.size n := by
        rintro ⟨o, ho, hrole⟩
        obtain ⟨c, cs, heq, hc⟩ := exists_indentLine P n (not_blank_of_opener hm hfirst ho hrole)
        rw [hkeeps] at heq
        refine ⟨c, cs ++ more, ?_, hc⟩
        rw [b.size_eq, h.text, Text.slice_size_append]
        nth_rewrite 1 [heq]
        simp
      refine ih (h.next hbreak hfirst hfirstne n) (ht.next h hfirst hstands) ?_ ?_
      · rw [Text.size_append]
        exact hbelow
      · rw [Text.size_append]
        omega

/-! ## Room for the blanks -/

/-- Whether a text can have the blanks in front of the line; a line of blanks loses them. -/
def HasRoom (line : Text) : Prop :=
  (¬∀ c ∈ line, isBlank c) → (line.takeWhile isIndent).length ≤ maxTextSize

theorem length_blanks (l : Layout) (n : Nat) : (l.blanks n).length = if l.useTabs then n else n * l.unit := by
  rw [Layout.blanks]
  split
  · exact List.length_replicate
  · exact List.length_replicate

/-- An indented line has room for its blanks if it is blank or its level fits. -/
theorem hasRoom_indentLine (P : Profile) (n : Nat) (line : Text) :
    HasRoom (P.indentLine n line) ↔ (line.all isBlank || P.layout.fits n) = true := by
  rw [HasRoom, indentLine_blank_iff, Bool.or_eq_true, List.all_eq_true]
  by_cases hblank : ∀ c ∈ line, isBlank c
  · exact iff_of_true (fun h => absurd hblank h) (.inl hblank)
  · rw [takeWhile_indentLine P n hblank, length_blanks, Layout.fits, decide_eq_true_eq, or_iff_right hblank]
    exact ⟨fun h => h hblank, fun h _ => h⟩

/-- **The lines of a text fit if all lines of the indented text have room.** -/
theorem linesFit_iff (found : List (Nat × Nat)) (start : Nat) (t : Text) :
    P.linesFit b found start t.lines ↔
      ∀ line ∈ Text.lines (P.indentLines b found start t.lines), HasRoom line := by
  induction t using Text.line_induction generalizing found start with
  | nil => exact iff_of_true rfl (by simp [indentLines, Text.lines])
  | line line rest hne hline hlines ih =>
    rw [hlines, linesFit, indentLines, Bool.and_eq_true, ← hasRoom_indentLine, ih]
    generalize ((P.indentation b start).anchor.bind (found.lookup ·)).getD 0 +
      (P.indentation b start).delta = n
    rcases hline with ⟨w, hw, rfl⟩ | ⟨hw, rfl⟩
    · obtain ⟨w', hw', heq⟩ := P.indentLine_break n hw
      rw [heq, Text.lines_append_break hw', List.forall_mem_cons]
    · -- the last line, of which nothing may be left
      have hlast := P.indentLine_noBreak n hw
      have hempty : HasRoom [] := fun h => absurd (by simp) h
      show _ ∧ (∀ line ∈ Text.lines [], HasRoom line) ↔ ∀ line ∈ Text.lines (_ ++ []), HasRoom line
      rw [List.append_nil, Text.lines_noBreak hlast]
      constructor
      · rintro ⟨hroom, -⟩ line' hmem
        rwa [List.mem_singleton.1 (List.mem_filter.1 hmem).1]
      · intro h
        refine ⟨?_, by simp [Text.lines]⟩
        by_cases hleft : P.indentLine n line = []
        · rw [hleft]
          exact hempty
        · exact h _ (List.mem_filter.2 ⟨List.mem_singleton_self _, decide_eq_true hleft⟩)

/-- **Indenting fails exactly where a line would take more blanks than a text can have.** -/
theorem tryReindent_eq_some_iff (P : Profile) (t r : Text) :
    P.tryReindent t = some r ↔ r = P.reindent t ∧ ∀ line ∈ r.lines, HasRoom line := by
  rw [tryReindent, Option.ite_none_right_eq_some, linesFit_iff, Option.some.injEq, and_comm, eq_comm]
  exact and_congr_right fun h => h ▸ Iff.rfl

/-- **Indenting a text and the indentation of its lines agree.**  In an indented text the blanks in front
    of a line that is not blank are those of some level.  The indentation of the line is this level, if it
    fits 64 bits, and if the columns of the line it hangs on, which stands `delta` units less deep, do;
    otherwise there is none.  In every text a line hangs on one that starts before it, and so no level that
    is looked up while indenting is missing; and there is an indented text exactly if all its lines have
    room for their blanks. -/
theorem reindent_agrees_with_indentOf (P : Profile) (t : Text)
    (hm : ∀ c ∈ P.dialect.marker, ¬isBlank c) (h0 : P.layout.maxVisits = 0) :
    let indented := Buffer.ofText (P.reindent t)
    (∀ before line rest : Text, indented.text = before ++ (line ++ rest) → before.EndsLine →
      Text.IsLine line rest → (¬∀ c ∈ line, isBlank c) →
      ∃ n, line.takeWhile isIndent = P.layout.blanks n ∧
        P.indentOf indented before.size =
          if (n - (P.indentation indented before.size).delta) * P.layout.unit < UInt64.size ∧
            n < UInt64.size then some n else none) ∧
    (∀ p a, (P.indentation (Buffer.ofText t) p).anchor = some a →
      a < t.lineStart p ∧ t.lineStart a = a) ∧
    P.indentLines? (Buffer.ofText t) [] 0 t.lines = some (P.reindent t) ∧
    ∀ r, P.tryReindent t = some r ↔ r = P.reindent t ∧ ∀ line ∈ r.lines, HasRoom line := by
  have hbreak : '\n' ∉ P.dialect.marker := fun hmem => hm _ hmem (by decide)
  have hstart : ∀ t : Text, P.Indented (Buffer.ofText t) [] t [] [] := fun t =>
    ⟨rfl, fun _ => .inl rfl, rfl, Nat.le_refl 0, by simp⟩
  refine ⟨fun before line rest htext hends hline hblank => ?_, fun p a h => anchor_lt h0 h, ?_,
    P.tryReindent_eq_some_iff t⟩
  · exact indented_line hm h0 (hstart _) (by intro o ho; cases ho) (reindent_fixed hm h0 t) htext hends
      hline hblank (Nat.zero_le _)
  · exact indentLines?_eq hbreak h0 (hstart t) (by intro o ho; cases ho)

/-- Tabs of four columns: the line before the `else` hangs on one that is a unit deep itself. -/
theorem reindent_agrees_with_indentOf_tabs :
    let P : Profile := { layout := { maxVisits := 0, useTabs := true, indentWidth := 4 } }
    let t : Text := "gsave\nif a then\n \nx\n\telse\nend if\n".toList
    P.dialect.marker.all (!isBlank ·) ∧
      P.reindent t = "gsave\n\tif a then\n\n\t\tx\n\telse\n\tend if\n".toList ∧
      P.indentOf (Buffer.ofText (P.reindent t)) 18 = some 2 ∧
      P.indentLines? (Buffer.ofText t) [] 0 t.lines = some (P.reindent t) := by
  intro P t
  have hrun : P.dialect.marker.all (!isBlank ·) ∧
      P.reindent t = "gsave\n\tif a then\n\n\t\tx\n\telse\n\tend if\n".toList := by
    decide +kernel
  obtain ⟨hmarker, hvalue⟩ := hrun
  have hm : ∀ c ∈ P.dialect.marker, ¬isBlank c := by simpa using hmarker
  obtain ⟨hlines, -, hlevels, -⟩ := reindent_agrees_with_indentOf P t hm rfl
  obtain ⟨n, hblanks, hindent⟩ := hlines "gsave\n\tif a then\n\n".toList "\t\tx\n".toList
    "\telse\n\tend if\n".toList hvalue (.inr (by decide)) (.inl ⟨"\t\tx".toList, by simp, rfl⟩)
    fun hblank => absurd (hblank 'x' (by simp)) (by decide)
  -- two tabs are the blanks of two units
  obtain rfl : n = 2 := by
    have hlen : 2 = (List.replicate n '\t').length := congrArg List.length hblanks
    rw [List.length_replicate] at hlen
    exact hlen.symm
  refine ⟨hmarker, hvalue, hindent.trans (if_pos ?_), hlevels⟩
  have hunit : P.layout.unit = 4 := rfl
  rw [hunit, UInt64.size]
  omega

/-- **Tabs of 2^63 columns**: the line in the innermost block hangs on a line two units deep, whose columns
    need more than 64 bits, so its indentation fails.  Indenting does not. -/
theorem indentOf_fails_on_wide_tabs :
    let P : Profile := { layout := { maxVisits := 0, useTabs := true, indentWidth := 9223372036854775808 } }
    let t : Text := "gsave\n\tgsave\n\t\tgsave\n\t\t\tx\n".toList
    P.tryReindent t = some t ∧
      [0, 6, 13, 21].map (P.indentOf (Buffer.ofText t)) = [some 0, some 1, some 2, none] ∧
      t.lines.map (List.takeWhile isIndent) = [0, 1, 2, 3].map P.layout.blanks := by
  decide +kernel

end Profile

end BlockScript
