/-
  Where findings land.

  A finding names a line by its number.  Three ways to count lines have to come to the same: the pieces that a
  text is cut into, the breaks before an offset, and the breaks of the whole text.

  1. The piece with number `n` follows `n` breaks (`lines_getElem?`), and there are as many pieces as breaks,
     plus one for what follows the last break (`length_lines`).
  2. On its line a finding takes the leftmost occurrence of its excerpt (`indexOf?_eq_some`), else the first
     word, else the end of the line (`locate_marked`).
  3. So the offset where it starts follows the breaks before its line and no others, and counting them gives
     its line back (`lineColumn_line`).

  The main result is `ofRecord?_lands`.
-/
import BlockScript.Command.Position
import BlockScript.Lint.Diagnostic
import BlockScript.Proofs.ReportPrinting

namespace BlockScript

/-! ## Numbered lines -/

namespace Text

variable {t : Text}

/-- The number of lines: pieces that a break ends, and one more if something follows the last break. -/
def lineCount (t : Text) : Nat := t.count '\n' + if t.isEmpty || t.getLast? = some '\n' then 0 else 1

theorem count_break {w : Text} (hw : ∀ c ∈ w, c ≠ '\n') : w.count '\n' = 0 :=
  List.count_eq_zero.2 fun h => hw '\n' h rfl

theorem length_lines (t : Text) : t.lines.length = t.lineCount := by
  induction t using line_induction with
  | nil => rfl
  | line line rest hne hline hlines ih =>
    rw [hlines, List.length_cons, ih]
    rcases hline with ⟨w, hw, rfl⟩ | ⟨hw, rfl⟩
    · -- whether something follows the last break is settled by the lines below, if there are any
      have hcount : (w ++ ['\n'] ++ rest).count '\n' = rest.count '\n' + 1 := by
        rw [List.count_append, List.count_append, count_break hw]
        show 0 + 1 + rest.count '\n' = _
        omega
      cases rest with
      | nil => simp [lineCount, count_break hw]
      | cons c cs =>
        have hlast : (w ++ ['\n'] ++ c :: cs).getLast? = (c :: cs).getLast? := by
          rw [List.getLast?_append, List.getLast?_cons, Option.some_or]
        have hempty : (w ++ ['\n'] ++ c :: cs).isEmpty = (c :: cs).isEmpty := by simp
        rw [lineCount, lineCount, hcount, hlast, hempty]
        omega
    · have hlast : line.getLast? ≠ some '\n' := fun h => hw '\n' (List.mem_of_getLast? h) rfl
      rw [List.append_nil, lineCount, lineCount, count_break hw]
      simp [hne, hlast]

/-- **A line follows as many breaks as lines.** -/
theorem lines_getElem? {n : Nat} {line : Text} (h : t.lines[n]? = some line) :
    ∃ before rest : Text, t = before ++ (line ++ rest) ∧ before = (t.lines.take n).flatten ∧ before.EndsLine ∧
      before.count '\n' = n ∧ line ≠ [] ∧ IsLine line rest := by
  induction t using line_induction generalizing n with
  | nil => cases h
  | line first rest hne hfirst hlines ih =>
    rw [hlines] at h ⊢
    cases n with
    | zero =>
      obtain rfl : first = line := Option.some.inj h
      exact ⟨[], rest, rfl, rfl, Or.inl rfl, rfl, hne, hfirst⟩
    | succ n =>
      obtain ⟨before, rest', rfl, hbefore, hends, hcount, hne', hline⟩ := ih h
      have hrest : before ++ (line ++ rest') ≠ [] := by simp [hne']
      rcases hfirst with ⟨w, hw, rfl⟩ | ⟨-, hnil⟩
      · refine ⟨w ++ ['\n'] ++ before, rest', by simp, ?_, Or.inr ?_, ?_, hne', hline⟩
        · rw [List.take_succ_cons, List.flatten_cons, ← hbefore]
        · rcases hends with rfl | hlast
          · simp
          · rw [List.getLast?_append, hlast, Option.some_or]
        · rw [List.count_append, List.count_append, count_break hw, hcount]
          show 0 + 1 + n = n + 1
          omega
      · exact absurd hnil hrest

/-- Whether `line` is the line of a text with the number `n`, counted from 1, without the line feeds and
    carriage returns it ends with. -/
structure LineNumbered (t : Text) (n : Nat) (before line ending rest : Text) : Prop where
  text : t = before ++ (line ++ (ending ++ rest))
  starts : before.EndsLine
  number : before.count '\n' + 1 = n
  whole : line ++ ending ≠ [] ∧ IsLine (line ++ ending) rest
  noBreak : ∀ c ∈ line, c ≠ '\n'
  last : ∀ c ∈ line.getLast?, isLineEnding c = false
  ending : ∀ c ∈ ending, isLineEnding c

theorem getLast?_trimEnd (p : Char → Bool) (t : Text) : ∀ c ∈ (trimEnd p t).getLast?, p c = false := by
  intro c hc
  rw [trimEnd, List.getLast?_reverse] at hc
  have hhead := List.head?_dropWhile_not p t.reverse
  rw [Option.mem_def.1 hc] at hhead
  simpa using hhead

theorem mem_of_mem_trimEnd {p : Char → Bool} {c : Char} (h : c ∈ trimEnd p t) : c ∈ t := by
  rw [← trimEnd_append p t]
  exact List.mem_append_left _ h

/-- A line without its ending has no break. -/
theorem IsLine.trimEnd_noBreak {line rest : Text} (h : IsLine line rest) :
    ∀ c ∈ trimEnd isLineEnding line, c ≠ '\n' := by
  rcases h with ⟨w, hw, rfl⟩ | ⟨hw, -⟩
  · intro c hc
    rw [Report.trimEnd_break] at hc
    exact hw c (mem_of_mem_trimEnd hc)
  · intro c hc
    exact hw c (mem_of_mem_trimEnd hc)

end Text

namespace Diagnostic

variable {t line : Text} {n offset : Nat}

/-- A text has a line of every number up to its number of lines. -/
theorem isSome_numberedLine? : (numberedLine? t n).isSome ↔ 1 ≤ n ∧ n ≤ t.lineCount := by
  cases n with
  | zero => simp [numberedLine?]
  | succ n =>
    rw [numberedLine?, Option.isSome_map, ← Text.length_lines, isSome_getElem?]
    omega

/-- The line with a number is the one that as many breaks precede. -/
theorem lineNumbered_of_eq (h : numberedLine? t n = some (offset, line)) :
    ∃ before ending rest : Text, t.LineNumbered n before line ending rest ∧ offset = before.size := by
  cases n with
  | zero => cases h
  | succ n =>
    obtain ⟨whole, hwhole, heq⟩ := Option.map_eq_some_iff.1 h
    obtain ⟨hoffset, rfl⟩ := Prod.mk.inj heq
    obtain ⟨before, rest, ht, hbefore, hends, hcount, hne, hline⟩ := Text.lines_getElem? hwhole
    have hcut := Text.trimEnd_append Text.isLineEnding whole
    refine ⟨before, (whole.reverse.takeWhile Text.isLineEnding).reverse, rest,
      ⟨?_, hends, by rw [hcount], ?_, hline.trimEnd_noBreak, Text.getLast?_trimEnd _ _, ?_⟩, ?_⟩
    · rw [← List.append_assoc (Text.trimEnd _ _), hcut]
      exact ht
    · rw [hcut]
      exact ⟨hne, hline⟩
    · intro c hc
      exact List.mem_takeWhile_imp (List.mem_reverse.1 hc)
    · rw [← hoffset, hbefore]

end Diagnostic

/-! ## A place on a line -/

namespace Text

/-- **What is found is the leftmost occurrence.** -/
theorem indexOf?_eq_some {word t : Text} {p : Nat} (hword : word ≠ []) (h : indexOf? word t = some p) :
    ∃ front back : Text, t = front ++ (word ++ back) ∧ p = front.size ∧
      ∀ front' back' : Text, t = front' ++ (word ++ back') → front.size ≤ front'.size := by
  induction t generalizing p with
  | nil => simp [indexOf?, hword] at h
  | cons c cs ih =>
    rw [indexOf?] at h
    split at h
    · next hfront =>
      obtain ⟨back, hback⟩ := List.isPrefixOf_iff_prefix.1 hfront
      refine ⟨[], back, hback.symm, (Option.some.inj h).symm, ?_⟩
      intro front' back' _
      exact Nat.zero_le _
    · next hfront =>
      obtain ⟨q, hq, rfl⟩ := Option.map_eq_some_iff.1 h
      obtain ⟨front, back, rfl, rfl, hleft⟩ := ih hq
      refine ⟨c :: front, back, rfl, rfl, ?_⟩
      intro front' back' heq
      cases front' with
      | nil =>
        -- the word does not stand at the front
        refine absurd (List.isPrefixOf_iff_prefix.2 ?_) hfront
        exact ⟨back', heq.symm⟩
      | cons c' front' =>
        obtain ⟨rfl, hrest⟩ := List.cons.inj heq
        have hle := hleft front' back' hrest
        simp only [size_cons]
        omega

theorem not_infix_of_indexOf? {word t : Text} (h : indexOf? word t = none) : ¬word <:+: t := by
  induction t with
  | nil =>
    intro hin
    obtain rfl := List.infix_nil.1 hin
    simp [indexOf?] at h
  | cons c cs ih =>
    rw [indexOf?] at h
    split at h
    · cases h
    · next hfront =>
      intro hin
      rcases List.infix_cons_iff.1 hin with hprefix | hrest
      · exact hfront (List.isPrefixOf_iff_prefix.2 hprefix)
      · exact ih (Option.map_eq_none_iff.1 h) hrest

end Text

/-- Whether a line has no excerpt to show: none is given, it is empty, or it does not occur. -/
def LacksExcerpt (excerpt : Option Text) (line : Text) : Prop :=
  ∀ e, excerpt = some e → e ≠ [] → ¬e <:+: line

/-- What a finding marks on the line made of three parts: the second one. -/
inductive Marked (excerpt : Option Text) : (front word back : Text) → Prop
  /-- the leftmost occurrence of the excerpt -/
  | excerpt {e front back : Text} (he : excerpt = some e) (hne : e ≠ [])
      (hleft : ∀ front' back' : Text, front ++ (e ++ back) = front' ++ (e ++ back') → front.size ≤ front'.size) :
      Marked excerpt front e back
  /-- the first word: all of the first run of characters that are not blank -/
  | word {front w back : Text} (hlacks : LacksExcerpt excerpt (front ++ (w ++ back)))
      (hfront : ∀ c ∈ front, isBlank c) (hw : w ≠ [] ∧ ∀ c ∈ w, isBlank c = false)
      (hback : ∀ c ∈ back.head?, isBlank c) : Marked excerpt front w back
  /-- the end of a blank line -/
  | blank {line : Text} (hlacks : LacksExcerpt excerpt line) (hline : ∀ c ∈ line, isBlank c) :
      Marked excerpt line [] []

namespace Diagnostic

variable {excerpt : Option Text}

theorem firstWord_marked {line : Text} (hlacks : LacksExcerpt excerpt line) :
    ∃ front word back : Text, line = front ++ (word ++ back) ∧ Marked excerpt front word back ∧
      firstWord line = (front.size, front.size + word.size) := by
  have hline : line.takeWhile isBlank ++ line.dropWhile isBlank = line := List.takeWhile_append_dropWhile
  have hblanks : ∀ c ∈ line.takeWhile isBlank, isBlank c := fun c hc => List.mem_takeWhile_imp hc
  cases hrest : line.dropWhile isBlank with
  | nil =>
    rw [hrest, List.append_nil] at hline
    refine ⟨line, [], [], by simp, .blank hlacks (hline ▸ hblanks), ?_⟩
    simp only [firstWord, hrest, hline]
    rfl
  | cons c cs =>
    have hc : isBlank c = false := by
      have hhead := List.head?_dropWhile_not isBlank line
      rw [hrest] at hhead
      simpa using hhead
    have hsplit : (c :: cs).takeWhile (!isBlank ·) ++ (c :: cs).dropWhile (!isBlank ·) = c :: cs :=
      List.takeWhile_append_dropWhile
    have hparts : line = line.takeWhile isBlank ++
        ((c :: cs).takeWhile (!isBlank ·) ++ (c :: cs).dropWhile (!isBlank ·)) := by
      rw [hsplit, ← hrest, hline]
    refine ⟨_, _, _, hparts, .word (hparts ▸ hlacks) hblanks ⟨?_, ?_⟩ ?_, ?_⟩
    · rw [List.takeWhile_cons_of_pos (by simp [hc])]
      exact List.cons_ne_nil _ _
    · intro x hx
      simpa using List.mem_takeWhile_imp hx
    · intro x hx
      have hhead := List.head?_dropWhile_not (!isBlank ·) (c :: cs)
      rw [Option.mem_def.1 hx] at hhead
      simpa using hhead
    · simp only [firstWord, hrest]

/-- **A finding marks its excerpt, else the first word, else the end of the line.** -/
theorem locate_marked (line : Text) (excerpt : Option Text) :
    ∃ front word back : Text, line = front ++ (word ++ back) ∧ Marked excerpt front word back ∧
      locate line excerpt = (front.size, front.size + word.size) := by
  rw [locate]
  split
  · next hnone =>
    apply firstWord_marked
    intro e he hne
    rw [he, Option.filter_some] at hnone
    simp [hne] at hnone
  · next word hsome =>
    obtain ⟨he, hne⟩ := Option.filter_eq_some_iff.1 hsome
    have hword : word ≠ [] := by simpa using hne
    split
    · next p hp =>
      obtain ⟨front, back, rfl, rfl, hleft⟩ := Text.indexOf?_eq_some hword hp
      exact ⟨front, word, back, rfl, .excerpt he hword hleft, rfl⟩
    · next hp =>
      apply firstWord_marked
      intro e he' _
      obtain rfl : word = e := Option.some.inj (he.symm.trans he')
      exact Text.not_infix_of_indexOf? hp

/-! ## A place in the text -/

/-- Counting breaks leads back to the line. -/
theorem lineColumn_line {t before line ending rest front behind : Text} {n : Nat}
    (h : t.LineNumbered n before line ending rest) (hline : line = front ++ behind) :
    (t.lineColumn (before ++ front).size).1 = n := by
  have ht : t = (before ++ front) ++ (behind ++ (ending ++ rest)) := by
    rw [h.text, hline]
    simp only [List.append_assoc]
  have hfront : ∀ c ∈ front, c ≠ '\n' := fun c hc => h.noBreak c (hline ▸ List.mem_append_left _ hc)
  have hupTo : t.upTo (before ++ front).size = before ++ front := by
    rw [ht, Text.upTo, Text.splitAt?_size_append]
    rfl
  show (t.upTo (before ++ front).size).count '\n' + 1 = n
  rw [hupTo, List.count_append, Text.count_break hfront]
  exact h.number

theorem isBoundary_append (a t : Text) : (a ++ t).isBoundary a.size := by
  rw [Text.isBoundary, Text.splitAt?_size_append]
  rfl

/-- **Findings land on the line they name.**  A finding is placed if and only if the text has a line of its
    number.  It then covers characters of that line without its ending: the leftmost occurrence of its excerpt
    if there is one, else the first word, else nothing at the end of a blank line.  The line of the offset where
    it starts is the line it names. -/
theorem ofRecord?_lands (t : Text) (r : Record) :
    ((ofRecord? t r).isSome ↔ 1 ≤ r.line ∧ r.line ≤ t.lineCount) ∧
    ∀ d, ofRecord? t r = some d →
      (d.line = r.line ∧ d.severity = r.severity ∧ d.message = r.message) ∧
      ∃ before line ending rest front word back : Text,
        t.LineNumbered r.line before line ending rest ∧
        line = front ++ (word ++ back) ∧ Marked r.excerpt front word back ∧
        d.start = before.size + front.size ∧ d.stop = before.size + front.size + word.size ∧
        (before.size ≤ d.start ∧ d.start ≤ d.stop ∧ d.stop ≤ before.size + line.size) ∧
        (t.isBoundary d.start ∧ t.isBoundary d.stop) ∧
        (t.lineColumn d.start).1 = r.line := by
  constructor
  · rw [ofRecord?, Option.isSome_map]
    exact isSome_numberedLine?
  · intro d hd
    obtain ⟨⟨offset, line⟩, hnumbered, hplaced⟩ := Option.map_eq_some_iff.1 hd
    obtain ⟨before, ending, rest, hline, rfl⟩ := lineNumbered_of_eq hnumbered
    obtain ⟨front, word, back, hparts, hmarked, hplace⟩ := locate_marked line r.excerpt
    simp only [hplace] at hplaced
    have hkept : d.line = r.line ∧ d.severity = r.severity ∧ d.message = r.message := by
      subst hplaced
      exact ⟨rfl, rfl, rfl⟩
    have hstart : d.start = before.size + front.size := by rw [← hplaced]
    have hstop : d.stop = before.size + front.size + word.size := by rw [← hplaced, Nat.add_assoc]
    have hsize : line.size = front.size + (word.size + back.size) := by
      rw [hparts, Text.size_append, Text.size_append]
    refine ⟨hkept, before, line, ending, rest, front, word, back, hline, hparts, hmarked, hstart, hstop, ?_,
      ⟨?_, ?_⟩, ?_⟩
    · omega
    · have ht : t = (before ++ front) ++ (word ++ back ++ (ending ++ rest)) := by
        rw [hline.text, hparts]
        simp only [List.append_assoc]
      rw [hstart, ← Text.size_append, ht]
      apply isBoundary_append
    · have ht : t = (before ++ front ++ word) ++ (back ++ (ending ++ rest)) := by
        rw [hline.text, hparts]
        simp only [List.append_assoc]
      rw [hstop, ← Text.size_append, ← Text.size_append, ht]
      apply isBoundary_append
    · rw [hstart, ← Text.size_append]
      exact lineColumn_line hline hparts

/-- A finding whose excerpt is on another line goes to the first word of its own, and one on a line of carriage
    returns to its start; there is no fourth line. -/
theorem ofRecord?_lands_crlf :
    let t : Text := "x = é\r\n  call é\r\n\r\r\n".toList
    let record (n : Nat) (excerpt : Text) : Record := ⟨"-".toList, n, some excerpt, .error, []⟩
    (ofRecord? t (record 2 "x".toList) = some ⟨10, 14, 2, .error, []⟩ ∧ (t.lineColumn 10).1 = 2) ∧
      (ofRecord? t (record 3 []) = some ⟨19, 19, 3, .error, []⟩ ∧ (t.lineColumn 19).1 = 3) ∧
      (ofRecord? t (record 4 [])).isSome = false := by
  intro t record
  have hword : ofRecord? t (record 2 "x".toList) = some ⟨10, 14, 2, .error, []⟩ := by decide
  have hblank : ofRecord? t (record 3 []) = some ⟨19, 19, 3, .error, []⟩ := by decide
  obtain ⟨-, _, _, _, _, _, _, _, -, -, -, -, -, -, -, hline⟩ := (ofRecord?_lands t _).2 _ hword
  obtain ⟨-, _, _, _, _, _, _, _, -, -, -, -, -, -, -, hline'⟩ := (ofRecord?_lands t _).2 _ hblank
  refine ⟨⟨hword, hline⟩, ⟨hblank, hline'⟩, ?_⟩
  rw [← Bool.not_eq_true, (ofRecord?_lands t (record 4 [])).1]
  decide

end Diagnostic

end BlockScript
