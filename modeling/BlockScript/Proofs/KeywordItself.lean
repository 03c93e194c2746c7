/-
  Whether a keyword is found in a text that is the keyword alone.

  An edge of a literal asks for a word boundary at a letter, a number or `_`.  A word boundary lies beside a
  word character, and not every number is one: `²` asks for a boundary that no text has next to it.  So a
  keyword matches itself exactly if each edge that asks for a boundary is a word character (`StandsAlone`).
  Its siblings have no say: none that is longer fits, and none that is as long is another one.

  The main result is `matches_itself_iff`.
-/
import BlockScript.Proofs.KeywordRuns
import BlockScript.Text.Blank

namespace BlockScript

variable {ignoreCase : Bool}

/-! ## The first span -/

namespace KeywordTree

variable {t : KeywordTree} {line : Text} {cursor p stop : Nat}

/-- The first span of a level is what it takes first. -/
theorem Matches.head?_eq_some_iff {spans : List Span} {last : Nat}
    (h : Matches ignoreCase line (some t) cursor spans last) :
    spans.head? = some ⟨t.colour, p, stop⟩ ↔ ∃ b, t.Takes ignoreCase line cursor p stop b := by
  cases h with
  | missed hmisses =>
    constructor
    · nofun
    · rintro ⟨b, htakes⟩
      exact absurd hmisses htakes.not_misses
  | once _ htakes _ | again _ htakes _ _ =>
    constructor
    · intro h
      obtain ⟨-, rfl, rfl⟩ := Span.mk.inj (Option.some.inj h)
      exact ⟨_, htakes⟩
    · rintro ⟨b, htakes'⟩
      obtain ⟨rfl, rfl, -⟩ := htakes.eq htakes'
      rfl

end KeywordTree

/-! ## A literal alone -/

/-- Whether every edge of a text that asks for a word boundary is a word character, so that there is one if
    nothing stands beside it. -/
def Text.StandsAlone (l : Text) : Prop :=
  (l.head?.any needsBoundary → l.head?.any isWordChar) ∧
    (l.getLast?.any needsBoundary → l.getLast?.any isWordChar)

instance (l : Text) : Decidable l.StandsAlone := inferInstanceAs (Decidable (_ ∧ _))

theorem stands_alone_iff {l : Text} : Stands ignoreCase [] l [] l ↔ l.StandsAlone := by
  have hleft : wordBoundary ([] : Text).getLast? l.head? = l.head?.any isWordChar := by simp [wordBoundary]
  have hright : wordBoundary l.getLast? ([] : Text).head? = l.getLast?.any isWordChar := by simp [wordBoundary]
  constructor
  · intro h
    exact ⟨hleft ▸ h.left, hright ▸ h.right⟩
  · rintro ⟨hl, hr⟩
    exact ⟨rfl, hleft ▸ hl, hright ▸ hr⟩

theorem Text.eq_nil_of_size {t : Text} (h : t.size = 0) : t = [] := by
  by_contra hne
  exact absurd h (Nat.ne_of_gt (size_pos hne))

namespace KeywordTree

variable {t : KeywordTree} {b : Branch} {p stop : Nat}

/-- A literal that fills a line is the line. -/
theorem Reaches.eq_line {line l : Text} (h : t.Reaches false line 0 0 line.size l) :
    l = line ∧ Stands false [] line [] line := by
  obtain ⟨gone, skipped, w, after, heq, hgone, hskipped, hstop, -, hstands⟩ := h
  obtain rfl := hstands.eq_literal
  have hsize : line.size = gone.size + (skipped.size + (l.size + after.size)) := by
    simp only [heq, Text.size_append]
  obtain rfl : gone = [] := Text.eq_nil_of_size hgone
  obtain rfl : skipped = [] := Text.eq_nil_of_size (by omega)
  obtain rfl : after = [] := Text.eq_nil_of_size (by omega)
  obtain rfl : line = l := by rw [heq, List.nil_append, List.nil_append, List.append_nil]
  rw [context_nil] at hstands
  exact ⟨rfl, hstands⟩

/-- A literal reached on a line without blanks, other than anywhere, is at the cursor. -/
theorem Reaches.column_eq {line l : Text} {cursor : Nat} (hblank : ∀ c ∈ line, ¬(c = ' ' ∨ c = '\t'))
    (hany : t.anywhere = false) (h : t.Reaches ignoreCase line cursor p stop l) : p = cursor := by
  obtain ⟨gone, skipped, w, after, rfl, -, rfl, -, hskipped, -⟩ := h
  cases skipped with
  | nil => rfl
  | cons c cs => exact absurd (hskipped hany c (List.mem_cons_self ..)) (hblank c (by simp))

theorem Reaches.size_le {line l : Text} (h : t.Reaches false line 0 p stop l) : l.size ≤ line.size := by
  obtain ⟨gone, skipped, w, after, rfl, -, -, -, -, hstands⟩ := h
  obtain rfl := hstands.eq_literal
  simp only [Text.size_append]
  omega

/-- **A level takes a literal of its own from a line that is the literal** if it stands alone. -/
theorem takes_itself_iff (hapart : t.TellsApart false) (hb : b ∈ t.children.toList)
    (hblank : ∀ c ∈ b.literal, ¬(c = ' ' ∨ c = '\t')) :
    (∃ b', t.Takes false b.literal 0 0 b.literal.size b') ↔ b.literal.StandsAlone := by
  constructor
  · rintro ⟨b', htakes⟩
    exact stands_alone_iff.1 htakes.reaches.eq_line.2
  · intro halone
    have hreaches : t.Reaches false b.literal 0 0 b.literal.size b.literal := by
      refine ⟨[], [], b.literal, [], by simp, rfl, rfl, by simp, fun _ => by simp [Text.Blanks], ?_⟩
      rw [context_nil]
      exact stands_alone_iff.2 halone
    refine ⟨b, hb, hreaches, ?_, ?_⟩
    · intro b' _ p' stop' hreaches'
      cases hany : t.anywhere with
      | true => exact Nat.zero_le p'
      | false => exact Nat.le_of_eq (hreaches'.column_eq hblank hany)
    · intro b' hb' stop' hreaches'
      rcases Nat.lt_or_eq_of_le hreaches'.size_le with hlt | hsize
      · exact Or.inr hlt
      · exact Or.inl (hapart.eq_of_reaches hb' hb hsize hreaches' hreaches)

end KeywordTree

/-- **A keyword matches itself exactly if it stands alone.**  Of a tree that compiles where case counts, a
    literal of the top level without white space is the first thing painted on a text that is the literal, all
    of it and in the colour of the tree, if and only if each edge of it that asks for a word boundary is a word
    character. -/
theorem Matcher.matches_itself_iff {t : KeywordTree} {m : Matcher} {b : Branch} (hm : compile t false = .ok m)
    (hb : b ∈ t.children.toList) (hblank : ∀ c ∈ b.literal, isBlank c = false) :
    (m.paint b.literal 0 b.literal.size).head? = some ⟨t.colour, 0, b.literal.size⟩ ↔ b.literal.StandsAlone := by
  have hnot : ∀ x, isBlank x → x ∉ b.literal := by
    intro x hx hmem
    rw [hblank x hmem] at hx
    cases hx
  have hapart : ∀ s, t.Level s → s.TellsApart false := fun s hs => tellsApart_of_compile hm nofun hs
  have hpaint := m.paint_row (hnot '\n' (by decide)) (hnot '\r' (by decide))
  obtain ⟨-, rfl⟩ := compile_eq_ok hm
  have hmatches : KeywordTree.Matches false b.literal (some t) 0 _ _ := KeywordTree.matches_run t b.literal 0 hapart
  rw [hpaint, hmatches.head?_eq_some_iff]
  apply KeywordTree.takes_itself_iff (hapart t .top) hb
  rintro c hc (rfl | rfl)
  · exact hnot ' ' (by decide) hc
  · exact hnot '\t' (by decide) hc

/-- A word, and a longer one that starts with it. -/
def membership : KeywordTree := .ofWords .builtin true ["in", "in?"]

/-- A literal matches itself though its sibling stands in the same place. -/
theorem membership_question : ∃ m, Matcher.compile membership false = .ok m ∧
    (m.paint "in?".toList 0 3).head? = some ⟨.builtin, 0, 3⟩ := by
  have hm : Matcher.compile membership false = .ok ⟨membership.ordered, false⟩ := rfl
  have hb : ⟨"in?".toList, none⟩ ∈ membership.children.toList := by decide
  have hall : "in?".toList.all (!isBlank ·) := by decide
  have hblank : ∀ c ∈ "in?".toList, isBlank c = false := fun c hc => by simpa using List.all_eq_true.1 hall c hc
  exact ⟨_, hm, (Matcher.matches_itself_iff hm hb hblank).2 (by decide)⟩

/-- A number that is no word character. -/
def superscript : KeywordTree := .ofWords .keyword false ["²"]

/-- **A number that is no word character does not match itself.** -/
theorem superscript_unmatched : ∃ m, Matcher.compile superscript false = .ok m ∧
    ⟨"²".toList, none⟩ ∈ superscript.children.toList ∧ "²".toList.all (!isBlank ·) ∧
    m.paint "²".toList 0 2 = [] := by
  have hfind : superscript.ordered.find false "²".toList 0 = none := rfl
  have hpaint := Matcher.paint_row ⟨superscript.ordered, false⟩ (t := "²".toList) (by decide) (by decide)
  rw [KeywordTree.run_of_find_none hfind] at hpaint
  exact ⟨⟨superscript.ordered, false⟩, rfl, by decide, by decide, hpaint⟩

end BlockScript
