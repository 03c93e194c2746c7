/-
  Reports read back.

  The readers of a report's lines are first described by the form of the lines they accept: `HeaderForm`,
  `ResultForm` and `CaretForm` say it without a reader, and `ofLine?_eq_some_iff`,
  `resultOfLine?_eq_some_iff` and `isCaretLine_iff` that the readers accept just these.  Blanks at the end
  of a line never matter, so neither do the carriage returns cut off before.

  A report is then printed from entries: a record with its context lines, after any lines that are no
  header.  `scan_entry` says that an entry is read back as its record, with nothing left open, and
  `parse_print` that the records of a printed report are those it was printed from.
-/
import BlockScript.Lint.Report
import BlockScript.Proofs.LineLookup
import Mathlib.Data.List.TakeWhile
import Mathlib.Data.Option.Basic

namespace BlockScript

/-! ## Trimming -/

namespace Text

variable {p : Char → Bool} {t m : Text}

/-- Whether `m` is what is left of `t` without the characters at either end that satisfy `p`. -/
structure TrimsTo (p : Char → Bool) (t m : Text) : Prop where
  split : ∃ lead trail, t = lead ++ (m ++ trail) ∧ (∀ c ∈ lead, p c) ∧ ∀ c ∈ trail, p c
  head : ∀ c ∈ m.head?, ¬p c
  last : ∀ c ∈ m.getLast?, ¬p c

theorem dropWhile_eq_self (h : ∀ c ∈ t.head?, ¬p c) : t.dropWhile p = t := by
  cases t with
  | nil => rfl
  | cons c cs => rw [List.dropWhile_cons_of_neg (h c rfl)]

theorem trimEnd_append_of_pos {e : Text} (he : ∀ c ∈ e, p c) (t : Text) :
    trimEnd p (t ++ e) = trimEnd p t := by
  rw [trimEnd, List.reverse_append, List.dropWhile_append_of_pos fun c hc => he c (List.mem_reverse.1 hc),
    trimEnd]

theorem trimEnd_eq_self (h : ∀ c ∈ t.getLast?, ¬p c) : trimEnd p t = t := by
  rw [trimEnd, dropWhile_eq_self (by rwa [List.head?_reverse]), List.reverse_reverse]

theorem trimEnd_snoc {c : Char} (hc : ¬p c) (t : Text) : trimEnd p (t ++ [c]) = t ++ [c] :=
  trimEnd_eq_self (by simpa using hc)

/-- Trimming is told by its outcome. -/
theorem trim_eq_iff : trim p t = m ↔ TrimsTo p t m := by
  constructor
  · rintro rfl
    have hfront := List.takeWhile_append_dropWhile (p := p) (l := t)
    have hback := trimEnd_append p (t.dropWhile p)
    refine ⟨⟨t.takeWhile p, ((t.dropWhile p).reverse.takeWhile p).reverse, ?_, ?_, ?_⟩, ?_, ?_⟩
    · rw [trim, hback, hfront]
    · intro c hc
      exact List.mem_takeWhile_imp hc
    · intro c hc
      exact List.mem_takeWhile_imp (List.mem_reverse.1 hc)
    · intro c hc
      -- the first character left is the first one after those in front
      have hc' : (t.dropWhile p).head? = some c := by
        rw [← hback, List.head?_append, show (trimEnd p (t.dropWhile p)).head? = some c from hc]
        rfl
      have hnot := List.head?_dropWhile_not p t
      rw [hc'] at hnot
      simpa using hnot
    · intro c hc
      have hc' : ((t.dropWhile p).reverse.dropWhile p).head? = some c := by
        rwa [trim, trimEnd, List.getLast?_reverse] at hc
      have hnot := List.head?_dropWhile_not p (t.dropWhile p).reverse
      rw [hc'] at hnot
      simpa using hnot
  · rintro ⟨⟨lead, trail, rfl, hlead, htrail⟩, hhead, hlast⟩
    rw [trim, List.dropWhile_append_of_pos hlead]
    cases m with
    | nil =>
      rw [List.nil_append, show trail.dropWhile p = [] from List.dropWhile_eq_nil_iff.2 htrail]
      rfl
    | cons c m =>
      rw [dropWhile_eq_self (t := c :: m ++ trail) hhead, trimEnd_append_of_pos htrail,
        trimEnd_eq_self hlast]

/-- Blanks at the end do not change what is left. -/
theorem TrimsTo.append (h : TrimsTo p t m) {e : Text} (he : ∀ c ∈ e, p c) : TrimsTo p (t ++ e) m := by
  obtain ⟨lead, trail, rfl, hlead, htrail⟩ := h.split
  refine ⟨⟨lead, trail ++ e, by simp, hlead, ?_⟩, h.head, h.last⟩
  intro c hc
  rcases List.mem_append.1 hc with hc | hc
  · exact htrail c hc
  · exact he c hc

end Text

/-! ## Forms of lines -/

/-- The text with every quote doubled. -/
def Text.doubleQuotes (t : Text) : Text := t.flatMap fun c => if c = '"' then ['"', '"'] else [c]

theorem Text.mem_of_mem_doubleQuotes {t : Text} {c : Char} (h : c ∈ t.doubleQuotes) : c ∈ t := by
  obtain ⟨x, hx, hc⟩ := List.mem_flatMap.1 h
  split at hc
  · next hquote =>
    have hc' : c = '"' := by simpa using hc
    rwa [hc', ← hquote]
  · rwa [List.mem_singleton.1 hc]

/-- What may follow the line number of a header: blanks, or `near` and the excerpt in quotes, those of the
    excerpt doubled. -/
inductive HeaderEnd : Text → Option Text → Prop
  | blank {t : Text} (h : ∀ c ∈ t, isBlank c) : HeaderEnd t none
  | near {lead gap trail : Text} (excerpt : Text) (hlead : ∀ c ∈ lead, isBlank c)
      (hgap : ∀ c ∈ gap, isBlank c) (hne : gap ≠ []) (htrail : ∀ c ∈ trail, isBlank c) :
      HeaderEnd (lead ++ ("near".toList ++ (gap ++ '"' :: (excerpt.doubleQuotes ++ '"' :: trail))))
        (some excerpt)

/-- Whether the line is the header: a name without colons that does not start with a blank, a colon,
    digits, a colon, and an end. -/
structure HeaderForm (line : Text) (h : RecordHeader) : Prop where
  name : h.file ≠ [] ∧ ∀ c ∈ h.file.head?, ¬isBlank c
  colon : ':' ∉ h.file
  digits : h.digits ≠ [] ∧ ∀ c ∈ h.digits, isDecimal c
  split : ∃ rest, line = h.file ++ ':' :: (h.digits ++ ':' :: rest) ∧ HeaderEnd rest h.excerpt

/-- Whether the line is the result: the word of its severity, a colon, and its message between blanks. -/
def ResultForm (line : Text) (severity : Severity) (message : Text) : Prop :=
  ∃ rest, line = severity.word.toList ++ ':' :: rest ∧ Text.TrimsTo isBlank rest message

/-- Whether the line holds nothing but carets and tildes, between blanks. -/
def CaretForm (line : Text) : Prop :=
  ∃ marks : Text, marks ≠ [] ∧ (∀ c ∈ marks, c = '^' ∨ c = '~') ∧ Text.TrimsTo isBlank line marks

theorem any_head?_iff {t : Text} : t.head?.any (!isBlank ·) ↔ t ≠ [] ∧ ∀ c ∈ t.head?, ¬isBlank c := by
  cases t <;> simp

theorem isCaretLine_iff {line : Text} : isCaretLine line ↔ CaretForm line := by
  simp only [isCaretLine, Bool.and_eq_true, Bool.not_eq_true', List.isEmpty_eq_false_iff, List.all_eq_true,
    Bool.or_eq_true, decide_eq_true_eq]
  constructor
  · rintro ⟨hne, hmarks⟩
    exact ⟨_, hne, hmarks, Text.trim_eq_iff.1 rfl⟩
  · rintro ⟨marks, hne, hmarks, htrim⟩
    rw [Text.trim_eq_iff.2 htrim]
    exact ⟨hne, hmarks⟩

/-- A word for a severity is read as that severity. -/
theorem Severity.ofWord?_eq_some_iff {w : Text} {s : Severity} :
    ofWord? w = some s ↔ w = s.word.toList := by
  constructor
  · intro h
    have hword := List.find?_some h
    simpa using (of_decide_eq_true hword).symm
  · rintro rfl
    cases s <;> decide

theorem Severity.ne_colon_of_mem_word (s : Severity) : ∀ c ∈ s.word.toList, c ≠ ':' := by
  have hcolon : ':' ∉ s.word.toList := by
    cases s <;> decide
  intro c hc
  exact ne_of_mem_of_not_mem hc hcolon

namespace Text

theorem drop_length_takeWhile (p : Char → Bool) (t : Text) :
    t.drop (t.takeWhile p).length = t.dropWhile p := by
  calc t.drop (t.takeWhile p).length
      = (t.takeWhile p ++ t.dropWhile p).drop (t.takeWhile p).length := by
        rw [List.takeWhile_append_dropWhile]
    _ = t.dropWhile p := List.drop_left

/-- A text that its part before a character does not exhaust goes on with that character. -/
theorem eq_takeWhile_ne_append {t cs : Text} {x c : Char} (h : t.dropWhile (· ≠ x) = c :: cs) :
    t = t.takeWhile (· ≠ x) ++ x :: cs := by
  have hx := List.head?_dropWhile_not (· ≠ x) t
  rw [h] at hx
  have hc : c = x := by simpa using hx
  calc t = t.takeWhile (· ≠ x) ++ t.dropWhile (· ≠ x) := List.takeWhile_append_dropWhile.symm
    _ = t.takeWhile (· ≠ x) ++ x :: cs := by rw [h, hc]

end Text

/-- The result reader accepts the lines that have the form of a result. -/
theorem resultOfLine?_eq_some_iff {line message : Text} {severity : Severity} :
    resultOfLine? line = some (severity, message) ↔ ResultForm line severity message := by
  simp only [resultOfLine?, Option.bind_eq_bind, Option.bind_eq_some_iff, Severity.ofWord?_eq_some_iff,
    Text.drop_length_takeWhile]
  constructor
  · rintro ⟨s, hword, h⟩
    split at h
    · next c rest hrest =>
      obtain ⟨rfl, rfl⟩ : s = severity ∧ Text.trim isBlank rest = message := by simpa using h
      refine ⟨rest, ?_, Text.trim_eq_iff.1 rfl⟩
      rw [← hword]
      exact Text.eq_takeWhile_ne_append hrest
    · cases h
  · rintro ⟨rest, rfl, htrim⟩
    have hword := Text.takeWhile_ne_append severity.ne_colon_of_mem_word rest
    refine ⟨severity, hword, ?_⟩
    have hdrop : (severity.word.toList ++ ':' :: rest).dropWhile (· ≠ ':') = ':' :: rest := by
      rw [← Text.drop_length_takeWhile, hword, List.drop_left]
    rw [hdrop]
    show some (severity, Text.trim isBlank rest) = some (severity, message)
    rw [Text.trim_eq_iff.2 htrim]

namespace Text

/-- Reading doubled quotes up to the closing one gives the text they were doubled in. -/
theorem quotedExcerpt?_eq_some_iff {t e : Text} :
    quotedExcerpt? t = some e ↔
      ∃ trail : Text, t = e.doubleQuotes ++ '"' :: trail ∧ ∀ c ∈ trail, isBlank c := by
  constructor
  · intro h
    fun_induction quotedExcerpt? t generalizing e with
    | case1 => cases h
    | case2 =>
      cases h
      exact ⟨[], rfl, by simp⟩
    | case3 => cases h
    | case4 cs ih =>
      obtain ⟨e', he', rfl⟩ := Option.map_eq_some_iff.1 h
      obtain ⟨trail, rfl, htrail⟩ := ih he'
      exact ⟨trail, by simp [doubleQuotes], htrail⟩
    | case5 c' cs hc' hall =>
      cases h
      exact ⟨c' :: cs, rfl, List.all_eq_true.1 hall⟩
    | case6 => cases h
    | case7 c c' cs hc ih =>
      obtain ⟨e', he', rfl⟩ := Option.map_eq_some_iff.1 h
      obtain ⟨trail, heq, htrail⟩ := ih he'
      exact ⟨trail, by simp [doubleQuotes, hc, heq], htrail⟩
  · rintro ⟨trail, rfl, htrail⟩
    induction e with
    | nil =>
      show quotedExcerpt? ('"' :: trail) = some []
      cases trail with
      | nil => rfl
      | cons c cs =>
        have hquote : c ≠ '"' := by
          rintro rfl
          exact absurd (htrail '"' (List.mem_cons_self ..)) (by decide)
        rw [quotedExcerpt?, if_pos rfl, if_neg hquote, if_pos (List.all_eq_true.2 htrail)]
    | cons c e ih =>
      by_cases hc : c = '"'
      · have hsplit : doubleQuotes (c :: e) ++ '"' :: trail =
            '"' :: '"' :: (doubleQuotes e ++ '"' :: trail) := by
          simp [doubleQuotes, hc]
        rw [hsplit, quotedExcerpt?, if_pos rfl, if_pos rfl, ih, hc]
        rfl
      · have hsplit : doubleQuotes (c :: e) ++ '"' :: trail = c :: (doubleQuotes e ++ '"' :: trail) := by
          simp [doubleQuotes, hc]
        obtain ⟨c', cs, hrest⟩ : ∃ c' cs, doubleQuotes e ++ '"' :: trail = c' :: cs :=
          List.exists_cons_of_ne_nil (by simp)
        rw [hsplit, hrest, quotedExcerpt?, if_neg hc, ← hrest, ih]
        rfl

end Text

/-- The reader of an excerpt accepts `near`, a gap, and the excerpt in quotes. -/
theorem nearExcerpt?_eq_some_iff {t e : Text} :
    nearExcerpt? t = some e ↔ ∃ gap trail : Text,
      t = "near".toList ++ (gap ++ '"' :: (e.doubleQuotes ++ '"' :: trail)) ∧ gap ≠ [] ∧
        (∀ c ∈ gap, isBlank c) ∧ ∀ c ∈ trail, isBlank c := by
  have hquote : ¬isBlank '"' := by decide
  constructor
  · intro h
    unfold nearExcerpt? at h
    split at h
    · next c cs =>
      split at h
      · next hc =>
        split at h
        · next quoted hquoted =>
          obtain ⟨trail, rfl, htrail⟩ := Text.quotedExcerpt?_eq_some_iff.1 h
          have hcs : cs = cs.takeWhile isBlank ++ '"' :: (e.doubleQuotes ++ '"' :: trail) := by
            rw [← hquoted, List.takeWhile_append_dropWhile]
          refine ⟨c :: cs.takeWhile isBlank, trail, ?_, by simp, ?_, htrail⟩
          · show 'n' :: 'e' :: 'a' :: 'r' :: c :: cs = 'n' :: 'e' :: 'a' :: 'r' :: c :: (_ ++ _)
            rw [← hcs]
          · intro x hx
            rcases List.mem_cons.1 hx with rfl | hx
            · exact hc
            · exact List.mem_takeWhile_imp hx
        · cases h
      · cases h
    · cases h
  · rintro ⟨gap, trail, rfl, hne, hgap, htrail⟩
    obtain ⟨c, cs, rfl⟩ := List.exists_cons_of_ne_nil hne
    have hdrop : (cs ++ '"' :: (e.doubleQuotes ++ '"' :: trail)).dropWhile isBlank =
        '"' :: (e.doubleQuotes ++ '"' :: trail) := by
      rw [List.dropWhile_append_of_pos fun x hx => hgap x (List.mem_cons_of_mem _ hx),
        List.dropWhile_cons_of_neg hquote]
    show nearExcerpt? ('n' :: 'e' :: 'a' :: 'r' :: c :: (cs ++ '"' :: (e.doubleQuotes ++ '"' :: trail))) =
      some e
    simp only [nearExcerpt?, hgap c (List.mem_cons_self ..), if_true, hdrop]
    exact Text.quotedExcerpt?_eq_some_iff.2 ⟨trail, rfl, htrail⟩

namespace RecordHeader

/-- What follows a line number, told by the first of it that is not blank. -/
theorem headerEnd_iff {rest : Text} {e : Option Text} :
    HeaderEnd rest e ↔
      (rest.dropWhile isBlank = [] ∧ e = none) ∨
        ∃ x, nearExcerpt? (rest.dropWhile isBlank) = some x ∧ e = some x := by
  constructor
  · rintro (h | ⟨x, hlead, hgap, hne, htrail⟩)
    · exact Or.inl ⟨List.dropWhile_eq_nil_iff.2 h, rfl⟩
    · refine Or.inr ⟨x, nearExcerpt?_eq_some_iff.2 ?_, rfl⟩
      rw [List.dropWhile_append_of_pos hlead, Text.dropWhile_eq_self (by simp; decide)]
      exact ⟨_, _, rfl, hne, hgap, htrail⟩
  · rintro (⟨h, rfl⟩ | ⟨x, h, rfl⟩)
    · exact .blank (List.dropWhile_eq_nil_iff.1 h)
    · obtain ⟨gap, trail, heq, hne, hgap, htrail⟩ := nearExcerpt?_eq_some_iff.1 h
      rw [← List.takeWhile_append_dropWhile (p := isBlank) (l := rest), heq]
      exact .near x (fun c hc => List.mem_takeWhile_imp hc) hgap hne htrail

/-- The header reader accepts the lines that have the form of a header. -/
theorem ofLine?_eq_some_iff {line : Text} {h : RecordHeader} :
    ofLine? line = some h ↔ HeaderForm line h := by
  simp only [ofLine?, Option.bind_eq_bind, Text.drop_length_takeWhile, Option.bind_eq_some_iff,
    Option.guard_eq_some', exists_and_left, exists_const]
  constructor
  · rintro ⟨hname, hdigits, hread⟩
    cases hafter : line.dropWhile (· ≠ ':') with
    | nil =>
      rw [hafter] at hdigits
      cases hdigits
    | cons c after =>
      have hline := Text.eq_takeWhile_ne_append hafter
      simp only [hafter, List.drop_succ_cons, List.drop_zero] at hdigits hread
      split at hread
      · next rest hrest =>
        have hsplit : after = after.takeWhile isDecimal ++ ':' :: rest := by
          rw [← hrest, List.takeWhile_append_dropWhile]
        obtain ⟨e, hend, rfl⟩ : ∃ e, HeaderEnd rest e ∧
            h = ⟨line.takeWhile (· ≠ ':'), after.takeWhile isDecimal, e⟩ := by
          split at hread
          · next hnil => exact ⟨none, headerEnd_iff.2 (Or.inl ⟨hnil, rfl⟩), (Option.some.inj hread).symm⟩
          · obtain ⟨x, hx, hread⟩ := Option.bind_eq_some_iff.1 hread
            exact ⟨some x, headerEnd_iff.2 (Or.inr ⟨x, hx, rfl⟩), (Option.some.inj hread).symm⟩
        refine ⟨?_, ?_, ⟨by simpa using hdigits, fun c hc => List.mem_takeWhile_imp hc⟩, rest, ?_, hend⟩
        · exact any_head?_iff.1 hname
        · intro hcolon
          exact absurd (List.mem_takeWhile_imp hcolon) (by simp)
        · rw [← hsplit]
          exact hline
      · cases hread
  · rintro ⟨hname, hcolon, ⟨hne, hdigits⟩, rest, rfl, hend⟩
    obtain ⟨file, digits, e⟩ := h
    dsimp only at hname hcolon hne hdigits hend ⊢
    have hfile := Text.takeWhile_ne_append (fun c hc => ne_of_mem_of_not_mem hc hcolon)
      (digits ++ ':' :: rest)
    have hafter : (file ++ ':' :: (digits ++ ':' :: rest)).dropWhile (· ≠ ':') =
        ':' :: (digits ++ ':' :: rest) := by
      rw [← Text.drop_length_takeWhile, hfile, List.drop_left]
    have hnumber : (digits ++ ':' :: rest).takeWhile isDecimal = digits := by
      rw [List.takeWhile_append_of_pos hdigits, List.takeWhile_cons_of_neg (by decide), List.append_nil]
    have hrest : (digits ++ ':' :: rest).dropWhile isDecimal = ':' :: rest := by
      rw [List.dropWhile_append_of_pos hdigits, List.dropWhile_cons_of_neg (by decide)]
    simp only [hfile, hafter, List.drop_succ_cons, List.drop_zero, hnumber, hrest]
    refine ⟨any_head?_iff.2 hname, by simpa using hne, ?_⟩
    rcases headerEnd_iff.1 hend with ⟨hnil, rfl⟩ | ⟨x, hx, rfl⟩
    · rw [hnil]
      rfl
    · split
      · next hnil =>
        rw [hnil] at hx
        cases hx
      · rw [hx]
        rfl

end RecordHeader

/-! ## Endings of lines -/

section Endings

variable {line blanks : Text}

theorem HeaderEnd.append {e : Option Text} (h : HeaderEnd line e) (hblanks : ∀ c ∈ blanks, isBlank c) :
    HeaderEnd (line ++ blanks) e := by
  have hboth : ∀ {t : Text}, (∀ c ∈ t, isBlank c) → ∀ c ∈ t ++ blanks, isBlank c := by
    intro t ht c hc
    rcases List.mem_append.1 hc with hc | hc
    · exact ht c hc
    · exact hblanks c hc
  cases h with
  | blank h => exact .blank (hboth h)
  | near excerpt hlead hgap hne htrail =>
    have hend := HeaderEnd.near excerpt hlead hgap hne (hboth htrail)
    simpa only [List.append_assoc, List.cons_append] using hend

/-- Blanks at the end of a header do not matter. -/
theorem HeaderForm.append {h : RecordHeader} (hform : HeaderForm line h)
    (hblanks : ∀ c ∈ blanks, isBlank c) : HeaderForm (line ++ blanks) h := by
  obtain ⟨hname, hcolon, hdigits, rest, rfl, hend⟩ := hform
  exact ⟨hname, hcolon, hdigits, rest ++ blanks, by simp, hend.append hblanks⟩

/-- Blanks at the end of a result do not matter. -/
theorem ResultForm.append {s : Severity} {m : Text} (h : ResultForm line s m)
    (hblanks : ∀ c ∈ blanks, isBlank c) : ResultForm (line ++ blanks) s m := by
  obtain ⟨rest, rfl, htrim⟩ := h
  exact ⟨rest ++ blanks, by simp, htrim.append hblanks⟩

/-- A line is what is left of it when a report is cut into lines, and blanks. -/
theorem exists_ending (line : Text) :
    ∃ blanks, line = Text.trimEnd Text.isLineEnding line ++ blanks ∧ ∀ c ∈ blanks, isBlank c := by
  refine ⟨_, (Text.trimEnd_append Text.isLineEnding line).symm, ?_⟩
  intro c hc
  exact isBlank_of_isLineEnding (List.mem_takeWhile_imp (List.mem_reverse.1 hc))

theorem ofLine?_eq_none_iff : RecordHeader.ofLine? line = none ↔ ∀ h, ¬HeaderForm line h := by
  rw [Option.eq_none_iff_forall_ne_some]
  exact forall_congr' fun h => not_congr RecordHeader.ofLine?_eq_some_iff

theorem resultOfLine?_eq_none_iff : resultOfLine? line = none ↔ ∀ s m, ¬ResultForm line s m := by
  rw [Option.eq_none_iff_forall_ne_some, Prod.forall]
  exact forall_congr' fun s => forall_congr' fun m => not_congr resultOfLine?_eq_some_iff

/-- A line that is no header is none without its ending. -/
theorem ofLine?_trimEnd_eq_none (h : ∀ hd, ¬HeaderForm line hd) :
    RecordHeader.ofLine? (Text.trimEnd Text.isLineEnding line) = none := by
  obtain ⟨blanks, heq, hblanks⟩ := exists_ending line
  rw [ofLine?_eq_none_iff]
  intro hd hform
  apply h hd
  rw [heq]
  exact hform.append hblanks

/-- A line that is no result is none without its ending. -/
theorem resultOfLine?_trimEnd_eq_none (h : ∀ s m, ¬ResultForm line s m) :
    resultOfLine? (Text.trimEnd Text.isLineEnding line) = none := by
  obtain ⟨blanks, heq, hblanks⟩ := exists_ending line
  rw [resultOfLine?_eq_none_iff]
  intro s m hform
  apply h s m
  rw [heq]
  exact hform.append hblanks

/-- A line of blanks or carets is one without its ending, too. -/
theorem unmarked_trimEnd (h : (∀ c ∈ line, isBlank c) ∨ CaretForm line) :
    let cut := Text.trimEnd Text.isLineEnding line
    (!isCaretLine cut && !cut.all isBlank) = false := by
  intro cut
  obtain ⟨blanks, heq, hblanks⟩ := exists_ending line
  have hcut : line = cut ++ blanks := heq
  rcases h with h | ⟨marks, hne, hmarks, htrim⟩
  · have hall : cut.all isBlank = true := by
      refine List.all_eq_true.2 fun c hc => h c ?_
      rw [hcut]
      exact List.mem_append_left _ hc
    rw [hall, Bool.not_true, Bool.and_false]
  · -- trimmed of blanks the line is the same with its ending and without
    have hsame : Text.TrimsTo isBlank (cut ++ blanks) (Text.trim isBlank cut) :=
      (Text.trim_eq_iff.1 rfl).append hblanks
    rw [← hcut] at hsame
    have hmarks' : Text.trim isBlank cut = marks :=
      (Text.trim_eq_iff.2 hsame).symm.trans (Text.trim_eq_iff.2 htrim)
    have hcaret : isCaretLine cut = true :=
      isCaretLine_iff.2 ⟨marks, hne, hmarks, Text.trim_eq_iff.1 hmarks'⟩
    rw [hcaret, Bool.not_true, Bool.false_and]

end Endings

/-! ## Printing -/

namespace Record

/-- The header line of a record. -/
def headerLine (r : Record) : Text :=
  r.file ++ ':' :: (Nat.toDigits 10 r.line ++ ':' :: match r.excerpt with
    | some e => " near \"".toList ++ (e.doubleQuotes ++ ['"'])
    | none => [])

/-- The result line of a record. -/
def resultLine (r : Record) : Text := r.severity.word.toList ++ (": ".toList ++ r.message)

/-- What a record must be like to be printed: a file name that a header can hold, a line number that fits,
    and an excerpt and a message of one line, the message without blanks at its ends. -/
structure Printable (r : Record) : Prop where
  name : r.file ≠ [] ∧ ∀ c ∈ r.file.head?, ¬isBlank c
  file : ':' ∉ r.file ∧ '\n' ∉ r.file
  line : r.line < UInt64.size
  excerpt : ∀ e ∈ r.excerpt, '\n' ∉ e
  message : '\n' ∉ r.message
  trimmed : (∀ c ∈ r.message.head?, ¬isBlank c) ∧ ∀ c ∈ r.message.getLast?, ¬isBlank c

end Record

theorem isDecimal_of_isDigit {c : Char} (h : c.isDigit) : isDecimal c := by
  have hrange : 48 ≤ c.toNat ∧ c.toNat ≤ 57 := by
    simp only [Char.isDigit, Bool.and_eq_true, decide_eq_true_eq] at h
    exact ⟨h.1, h.2⟩
  obtain ⟨later, hlater⟩ : ∃ later, decimalDigits.bounds = 48 :: 58 :: later := ⟨_, rfl⟩
  rw [isDecimal, CharSet.contains, hlater, CharSet.side, if_neg (by omega), CharSet.side,
    if_pos (by omega)]
  rfl

theorem isDecimal_of_mem_toDigits {n : Nat} {c : Char} (h : c ∈ Nat.toDigits 10 n) : isDecimal c :=
  isDecimal_of_isDigit (Nat.isDigit_of_mem_toDigits (by decide) (by decide) h)

/-- A number that fits is read back from its digits. -/
theorem lineNumber?_toDigits {n : Nat} (h : n < UInt64.size) :
    lineNumber? (Nat.toDigits 10 n) = some n := by
  have hdigits : (Nat.toDigits 10 n).all Char.isDigit := by
    refine List.all_eq_true.2 fun c hc => ?_
    exact Nat.isDigit_of_mem_toDigits (by decide) (by decide) hc
  have hvalue : (Nat.toDigits 10 n).foldl (fun n c => n * 10 + (c.toNat - '0'.toNat)) 0 = n := by
    have := Nat.ofDigitChars_toDigits (b := 10) (n := n) (by decide) (by decide)
    simpa only [Nat.ofDigitChars_eq_foldl, Nat.mul_comm 10] using this
  rw [lineNumber?, if_pos hdigits]
  dsimp only
  rw [hvalue, if_pos h]

namespace Record

variable {r : Record}

theorem isBlank_of_mem_space : ∀ c ∈ [' '], isBlank c := by
  intro c hc
  rw [List.mem_singleton.1 hc]
  decide

theorem headerLine_form (h : r.Printable) :
    HeaderForm r.headerLine ⟨r.file, Nat.toDigits 10 r.line, r.excerpt⟩ := by
  refine ⟨h.name, h.file.1, ⟨Nat.toDigits_ne_nil, fun c hc => isDecimal_of_mem_toDigits hc⟩, _, rfl, ?_⟩
  cases r.excerpt with
  | none => exact .blank (by simp)
  | some e => exact .near e isBlank_of_mem_space isBlank_of_mem_space (by simp) (by simp)

theorem resultLine_form (h : r.Printable) : ResultForm r.resultLine r.severity r.message := by
  refine ⟨' ' :: r.message, rfl, ⟨[' '], [], ?_, isBlank_of_mem_space, by simp⟩, h.trimmed.1, h.trimmed.2⟩
  rw [List.append_nil, List.singleton_append]

/-- A result is no header: a blank follows its first colon. -/
theorem resultLine_not_header (r : Record) (h : RecordHeader) : ¬HeaderForm r.resultLine h := by
  rintro ⟨-, hcolon, ⟨hne, hdigits⟩, rest, hsplit, -⟩
  have hword := Text.takeWhile_ne_append r.severity.ne_colon_of_mem_word (' ' :: r.message)
  have hfile := Text.takeWhile_ne_append (fun c hc => ne_of_mem_of_not_mem hc hcolon)
    (h.digits ++ ':' :: rest)
  have hline : r.severity.word.toList ++ ':' :: ' ' :: r.message =
      h.file ++ ':' :: (h.digits ++ ':' :: rest) := hsplit
  rw [hline, hfile] at hword
  rw [← hword] at hline
  obtain ⟨c, cs, hcs⟩ := List.exists_cons_of_ne_nil hne
  have hc : ' ' = c := by
    have := List.append_cancel_left hline
    rw [hcs] at this
    simpa using congrArg (fun t => t.tail.head?) this
  exact absurd (hdigits c (by simp [hcs])) (by rw [← hc]; decide)

/-- A header ends in a colon or a quote, so it stays whole when a report is cut into lines. -/
theorem trimEnd_headerLine (r : Record) : Text.trimEnd Text.isLineEnding r.headerLine = r.headerLine := by
  cases he : r.excerpt with
  | none =>
    have hlast : r.headerLine = (r.file ++ ':' :: Nat.toDigits 10 r.line) ++ [':'] := by
      simp [headerLine, he]
    rw [hlast]
    exact Text.trimEnd_snoc (by decide) _
  | some e =>
    have hlast : r.headerLine =
        (r.file ++ ':' :: (Nat.toDigits 10 r.line ++ ':' :: (" near \"".toList ++ e.doubleQuotes))) ++
          ['"'] := by
      simp [headerLine, he]
    rw [hlast]
    exact Text.trimEnd_snoc (by decide) _

/-- A result ends in its message or in the blank before it, so it stays whole, too. -/
theorem trimEnd_resultLine (h : r.Printable) :
    Text.trimEnd Text.isLineEnding r.resultLine = r.resultLine := by
  rcases List.eq_nil_or_concat r.message with hm | ⟨init, c, hm⟩
  · have hlast : r.resultLine = (r.severity.word.toList ++ [':']) ++ [' '] := by
      simp [resultLine, hm]
    rw [hlast]
    exact Text.trimEnd_snoc (by decide) _
  · have hc : ¬isBlank c := h.trimmed.2 c (by simp [hm])
    have hlast : r.resultLine = (r.severity.word.toList ++ (": ".toList ++ init)) ++ [c] := by
      simp [resultLine, hm]
    rw [hlast]
    exact Text.trimEnd_snoc (fun hend => hc (isBlank_of_isLineEnding hend)) _

theorem headerLine_noBreak (h : r.Printable) : '\n' ∉ r.headerLine := by
  have hdigits : '\n' ∉ Nat.toDigits 10 r.line := by
    intro hc
    exact absurd (isDecimal_of_mem_toDigits hc) (by decide)
  have hquotes : ∀ e ∈ r.excerpt, '\n' ∉ e.doubleQuotes := by
    intro e he hc
    exact h.excerpt e he (Text.mem_of_mem_doubleQuotes hc)
  unfold headerLine
  cases he : r.excerpt with
  | none => simp [h.file.2, hdigits]
  | some e => simp [h.file.2, hdigits, hquotes e he]

theorem resultLine_noBreak (h : r.Printable) : '\n' ∉ r.resultLine := by
  have hword : '\n' ∉ r.severity.word.toList := by
    cases r.severity <;> decide
  simp [resultLine, hword, h.message]

end Record

namespace Report

/-- A line that stands between records: one that has not the form of a header. -/
structure Filler (line : Text) : Prop where
  noBreak : '\n' ∉ line
  noHeader : ∀ h, ¬HeaderForm line h

/-- A record with the lines before its header and those between its header and its result. -/
structure Entry where
  before : List Text
  record : Record
  context : List Text

namespace Entry

/-- The lines of an entry. -/
def lines (e : Entry) : List Text :=
  e.before ++ e.record.headerLine :: (e.context ++ [e.record.resultLine])

/-- What an entry must be like to be printed: no line before it or in it is a header, none in it is a
    result, and if the record has no excerpt there is none in its context either. -/
structure Printable (e : Entry) : Prop where
  record : e.record.Printable
  before : ∀ l ∈ e.before, Filler l
  context : ∀ l ∈ e.context, Filler l ∧ ∀ s m, ¬ResultForm l s m
  unmarked : e.record.excerpt = none → ∀ l ∈ e.context, (∀ c ∈ l, isBlank c) ∨ CaretForm l

end Entry

/-- The report made of entries, and of lines after them. -/
def print (entries : List Entry) (after : List Text) : Text :=
  (entries.flatMap Entry.lines ++ after).flatMap (· ++ ['\n'])

/-! ## Reading back -/

/-- Lines are read one after the other. -/
theorem scan_append (pending : Option OpenRecord) (ls ls' : List Text) :
    scan pending (ls ++ ls') =
      ((scan pending ls).1 ++ (scan (scan pending ls).2 ls').1, (scan (scan pending ls).2 ls').2) := by
  induction ls generalizing pending with
  | nil => rfl
  | cons l ls ih =>
    simp only [List.cons_append, scan, ih, List.append_assoc]

/-- Outside records, lines that are no header are passed over. -/
theorem scan_fillers {ls : List Text} (h : ∀ l ∈ ls, RecordHeader.ofLine? l = none) :
    scan none ls = ([], none) := by
  induction ls with
  | nil => rfl
  | cons l ls ih =>
    have hstep : step none l = (none, none) := by
      rw [step, h l (List.mem_cons_self ..)]
    rw [scan, hstep]
    dsimp only
    rw [ih fun l' hl' => h l' (List.mem_cons_of_mem _ hl')]
    rfl

/-- Inside a record, lines that are neither header nor result are kept. -/
theorem scan_context {ls : List Text} (r : OpenRecord)
    (h : ∀ l ∈ ls, RecordHeader.ofLine? l = none ∧ resultOfLine? l = none) :
    scan (some r) ls = ([], some { r with context := r.context ++ ls }) := by
  induction ls generalizing r with
  | nil => simp [scan]
  | cons l ls ih =>
    obtain ⟨hheader, hresult⟩ := h l (List.mem_cons_self ..)
    have hstep : step (some r) l = (some { r with context := r.context ++ [l] }, none) := by
      simp only [step, hheader, hresult]
    rw [scan, hstep]
    dsimp only
    rw [ih _ fun l' hl' => h l' (List.mem_cons_of_mem _ hl')]
    simp

/-- A record whose result line is still to come, with the context met so far. -/
def opened (r : Record) (context : List Text) : OpenRecord := ⟨r.file, r.line, r.excerpt, context⟩

theorem step_headerLine {r : Record} (h : r.Printable) (pending : Option OpenRecord) :
    step pending r.headerLine = (some (opened r []), none) := by
  have hread := RecordHeader.ofLine?_eq_some_iff.2 (Record.headerLine_form h)
  simp only [step, hread, lineNumber?_toDigits h.line, Option.map_some, opened]

/-- A context of blanks and carets has no excerpt to give. -/
theorem contextExcerpt_eq_none {r : OpenRecord}
    (h : ∀ l ∈ r.context, (!isCaretLine l && !l.all isBlank) = false) : r.contextExcerpt = none := by
  have hnone : r.context.find? (fun l => !isCaretLine l && !l.all isBlank) = none := by
    refine List.find?_eq_none.2 fun l hl => ?_
    rw [Bool.not_eq_true]
    exact h l hl
  rw [OpenRecord.contextExcerpt, hnone, Option.map_none]

theorem step_resultLine {r : Record} (h : r.Printable) {context : List Text}
    (hcontext : r.excerpt = none → ∀ l ∈ context, (!isCaretLine l && !l.all isBlank) = false) :
    step (some (opened r context)) r.resultLine = (none, some r) := by
  have hheader : RecordHeader.ofLine? r.resultLine = none := by
    rw [← Record.trimEnd_resultLine h]
    exact ofLine?_trimEnd_eq_none r.resultLine_not_header
  have hresult := resultOfLine?_eq_some_iff.2 (Record.resultLine_form h)
  -- the excerpt is that of the header, or there is none
  have hexcerpt : (r.excerpt <|> (opened r context).contextExcerpt) = r.excerpt := by
    cases he : r.excerpt with
    | some e => rfl
    | none => exact contextExcerpt_eq_none (hcontext he)
  have hfinish : (opened r context).finish r.severity r.message = r := by
    rw [OpenRecord.finish, show (opened r context).excerpt = r.excerpt from rfl, hexcerpt]
    rfl
  simp only [step, hheader, hresult, hfinish]

/-- A record is read back from its header, its context and its result. -/
theorem scan_record {r : Record} (h : r.Printable) {context : List Text}
    (hkept : ∀ l ∈ context, RecordHeader.ofLine? l = none ∧ resultOfLine? l = none)
    (hcontext : r.excerpt = none → ∀ l ∈ context, (!isCaretLine l && !l.all isBlank) = false) :
    scan none (r.headerLine :: (context ++ [r.resultLine])) = ([r], none) := by
  have hopen : scan (some (opened r [])) context = ([], some (opened r context)) :=
    scan_context (opened r []) hkept
  have hclose : scan (some (opened r context)) [r.resultLine] = ([r], none) := by
    rw [scan, step_resultLine h hcontext]
    rfl
  rw [scan, step_headerLine h]
  dsimp only
  rw [scan_append, hopen, hclose]
  rfl

/-- An entry is read back as its record, and nothing is left open. -/
theorem scan_entry {e : Entry} (h : e.Printable) :
    scan none (e.lines.map (Text.trimEnd Text.isLineEnding)) = ([e.record], none) := by
  have hbefore : ∀ l ∈ e.before.map (Text.trimEnd Text.isLineEnding), RecordHeader.ofLine? l = none := by
    intro l hl
    obtain ⟨l', hl', rfl⟩ := List.mem_map.1 hl
    exact ofLine?_trimEnd_eq_none (h.before l' hl').noHeader
  have hkept : ∀ l ∈ e.context.map (Text.trimEnd Text.isLineEnding),
      RecordHeader.ofLine? l = none ∧ resultOfLine? l = none := by
    intro l hl
    obtain ⟨l', hl', rfl⟩ := List.mem_map.1 hl
    obtain ⟨hfiller, hresult⟩ := h.context l' hl'
    exact ⟨ofLine?_trimEnd_eq_none hfiller.noHeader, resultOfLine?_trimEnd_eq_none hresult⟩
  have hunmarked : e.record.excerpt = none → ∀ l ∈ e.context.map (Text.trimEnd Text.isLineEnding),
      (!isCaretLine l && !l.all isBlank) = false := by
    intro he l hl
    obtain ⟨l', hl', rfl⟩ := List.mem_map.1 hl
    exact unmarked_trimEnd (h.unmarked he l' hl')
  rw [Entry.lines, List.map_append, List.map_cons, List.map_append, List.map_singleton,
    e.record.trimEnd_headerLine, Record.trimEnd_resultLine h.record, scan_append, scan_fillers hbefore]
  dsimp only
  rw [scan_record h.record hkept hunmarked]
  rfl

theorem scan_entries {entries : List Entry} (h : ∀ e ∈ entries, e.Printable) :
    scan none ((entries.flatMap Entry.lines).map (Text.trimEnd Text.isLineEnding)) =
      (entries.map Entry.record, none) := by
  induction entries with
  | nil => rfl
  | cons e es ih =>
    rw [List.flatMap_cons, List.map_append, scan_append, scan_entry (h e (List.mem_cons_self ..))]
    dsimp only
    rw [ih fun e' he' => h e' (List.mem_cons_of_mem _ he')]
    rfl

/-- A line is cut to the same with its break and without. -/
theorem trimEnd_break (l : Text) :
    Text.trimEnd Text.isLineEnding (l ++ ['\n']) = Text.trimEnd Text.isLineEnding l := by
  apply Text.trimEnd_append_of_pos
  intro c hc
  rw [List.mem_singleton.1 hc]
  decide

/-- Lines put together with a break after each are cut apart again. -/
theorem lines_flatMap_break {ls : List Text} (h : ∀ l ∈ ls, '\n' ∉ l) :
    lines (ls.flatMap (· ++ ['\n'])) = ls.map (Text.trimEnd Text.isLineEnding) := by
  induction ls with
  | nil => rfl
  | cons l ls ih =>
    have hl : ∀ c ∈ l, c ≠ '\n' := fun c hc => ne_of_mem_of_not_mem hc (h l (List.mem_cons_self ..))
    have hrest := ih fun l' hl' => h l' (List.mem_cons_of_mem _ hl')
    rw [lines] at hrest ⊢
    rw [List.flatMap_cons, Text.lines_append_break hl, List.map_cons, hrest, List.map_cons,
      trimEnd_break]

theorem Entry.lines_noBreak {e : Entry} (h : e.Printable) : ∀ l ∈ e.lines, '\n' ∉ l := by
  intro l hl
  simp only [Entry.lines, List.mem_append, List.mem_cons, List.not_mem_nil, or_false] at hl
  rcases hl with hl | rfl | hl | rfl
  · exact (h.before l hl).noBreak
  · exact Record.headerLine_noBreak h.record
  · exact (h.context l hl).1.noBreak
  · exact Record.resultLine_noBreak h.record

/-- An empty line finishes no record. -/
theorem step_nil (pending : Option OpenRecord) : (step pending []).2 = none := by
  cases pending <;> rfl

theorem scan_snoc_break (pending : Option OpenRecord) (t : Text) :
    (scan pending (lines (t ++ ['\n']))).1 = (scan pending (lines t)).1 := by
  induction t using Text.line_induction generalizing pending with
  | nil => exact congrArg (·.toList ++ []) (step_nil pending)
  | line line rest hne hline hlines ih =>
    rcases hline with ⟨w, hw, rfl⟩ | ⟨hw, rfl⟩
    · -- the break is added to a later line
      have hsplit : lines (w ++ ['\n'] ++ rest ++ ['\n']) =
          Text.trimEnd Text.isLineEnding (w ++ ['\n']) :: lines (rest ++ ['\n']) := by
        rw [lines, List.append_assoc, Text.lines_append_break hw, List.map_cons]
        rfl
      have hsplit' : lines (w ++ ['\n'] ++ rest) =
          Text.trimEnd Text.isLineEnding (w ++ ['\n']) :: lines rest := by
        rw [lines, hlines, List.map_cons]
        rfl
      rw [hsplit, hsplit', scan, scan]
      dsimp only
      rw [ih]
    · have hbroken : lines (line ++ [] ++ ['\n']) = lines (line ++ []) := by
        have hlast := Text.lines_append_break hw []
        rw [lines, lines, hlines, List.append_nil]
        rw [List.append_nil] at hlast
        rw [hlast, List.map_cons, List.map_cons, trimEnd_break]
      rw [hbroken]

/-- Whether a report ends in a line break or not does not change its records. -/
theorem parse_snoc_break (t : Text) : parse (t ++ ['\n']) = parse t := scan_snoc_break none t

/-- **A printed report is read back.**  Its records are those it was printed from, in order, whatever
    stands between them, and also if the last line has no break. -/
theorem parse_print (entries : List Entry) (after : List Text) (h : ∀ e ∈ entries, e.Printable)
    (hafter : ∀ l ∈ after, Filler l) :
    parse (print entries after) = entries.map Entry.record ∧
      ∀ t, print entries after = t ++ ['\n'] → parse t = entries.map Entry.record := by
  have hbreaks : ∀ l ∈ entries.flatMap Entry.lines ++ after, '\n' ∉ l := by
    intro l hl
    rcases List.mem_append.1 hl with hl | hl
    · obtain ⟨e, he, hl⟩ := List.mem_flatMap.1 hl
      exact Entry.lines_noBreak (h e he) l hl
    · exact (hafter l hl).noBreak
  have hfillers : ∀ l ∈ after.map (Text.trimEnd Text.isLineEnding), RecordHeader.ofLine? l = none := by
    intro l hl
    obtain ⟨l', hl', rfl⟩ := List.mem_map.1 hl
    exact ofLine?_trimEnd_eq_none (hafter l' hl').noHeader
  have hparse : parse (print entries after) = entries.map Entry.record := by
    rw [parse, print, lines_flatMap_break hbreaks, List.map_append, scan_append, scan_entries h]
    dsimp only
    rw [scan_fillers hfillers, List.append_nil]
  refine ⟨hparse, ?_⟩
  intro t ht
  rw [← hparse, ht, parse_snoc_break]

/-- Two records: one with quotes in its excerpt, after a result that belongs to none, and one without an
    excerpt or a message, with blanks and carets for its context.  Some lines end in carriage returns. -/
theorem parse_print_two_records :
    let first : Record := ⟨"a b".toList, 3, some "say \"hi\"".toList, .error, "no such sub".toList⟩
    let second : Record := ⟨"-".toList, 18446744073709551615, none, .note, []⟩
    let entries : List Entry :=
      [⟨["error: stray\r".toList], first, ["   say \"hi\"\r".toList, "c:4:x".toList]⟩,
        ⟨[], second, ["\r\r".toList, "  ^~ \r".toList]⟩]
    (∀ e ∈ entries, e.Printable) ∧ (∀ l ∈ ["done".toList], Filler l) ∧
      print entries ["done".toList] =
        ("error: stray\r\na b:3: near \"say \"\"hi\"\"\"\n   say \"hi\"\r\nc:4:x\nerror: no such sub\n" ++
          "-:18446744073709551615:\n\r\r\n  ^~ \r\nnote: \ndone\n").toList ∧
      parse (print entries ["done".toList]) = [first, second] := by
  intro first second entries
  have hfirst : first.Printable := by
    refine ⟨⟨by decide, ?_⟩, ⟨by decide, by decide⟩, by decide, ?_, by decide, ?_, ?_⟩
    · rintro c ⟨⟩
      decide
    · rintro e ⟨⟩
      decide
    · rintro c ⟨⟩
      decide
    · rintro c ⟨⟩
      decide
  have hsecond : second.Printable := by
    refine ⟨⟨by decide, ?_⟩, ⟨by decide, by decide⟩, by decide, ?_, by decide, ?_, ?_⟩
    · rintro c ⟨⟩
      decide
    · rintro e ⟨⟩
    · rintro c ⟨⟩
    · rintro c ⟨⟩
  have hfiller : ∀ {l : Text}, '\n' ∉ l → RecordHeader.ofLine? l = none → Filler l :=
    fun hbreak hnone => ⟨hbreak, ofLine?_eq_none_iff.1 hnone⟩
  have hcontext : ∀ {l : Text}, '\n' ∉ l → RecordHeader.ofLine? l = none → resultOfLine? l = none →
      Filler l ∧ ∀ s m, ¬ResultForm l s m :=
    fun hbreak hheader hresult => ⟨hfiller hbreak hheader, resultOfLine?_eq_none_iff.1 hresult⟩
  have hentries : ∀ e ∈ entries, e.Printable := by
    intro e he
    simp only [entries, List.mem_cons, List.not_mem_nil, or_false] at he
    rcases he with rfl | rfl
    · refine ⟨hfirst, ?_, ?_, fun hnone => by cases hnone⟩
      · intro l hl
        rw [List.mem_singleton.1 hl]
        exact hfiller (by decide) (by decide)
      · intro l hl
        simp only [List.mem_cons, List.not_mem_nil, or_false] at hl
        rcases hl with rfl | rfl <;> exact hcontext (by decide) (by decide) (by decide)
    · refine ⟨hsecond, (fun l hl => by cases hl), ?_, ?_⟩
      · intro l hl
        simp only [List.mem_cons, List.not_mem_nil, or_false] at hl
        rcases hl with rfl | rfl <;> exact hcontext (by decide) (by decide) (by decide)
      · intro _ l hl
        simp only [List.mem_cons, List.not_mem_nil, or_false] at hl
        rcases hl with rfl | rfl
        · exact Or.inl (List.all_eq_true.1 (by decide))
        · exact Or.inr (isCaretLine_iff.1 (by decide))
  have hafter : ∀ l ∈ ["done".toList], Filler l := by
    intro l hl
    rw [List.mem_singleton.1 hl]
    exact hfiller (by decide) (by decide)
  exact ⟨hentries, hafter, by decide +kernel, (parse_print entries _ hentries hafter).1⟩

end Report

end BlockScript
