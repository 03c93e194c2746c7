/-
  Nothing is painted twice.

  A painter runs its keyword trees one by one and compares nothing that they find.  Their spans stay apart
  because literals made of small letters are taken as whole words only:

  1. whatever counts as a small letter under the case rule is a word character (`isWordChar_of_caseKey`), so a
     literal stands as a run of word characters, and the boundaries it asks for leave none next to it.  A level
     behind a literal does not look at what stands before its cursor, but the cursor then stands at the end of
     a word (`Matches.words`);
  2. two whole words of a line that have something in common are one word, so they spell one literal
     (`SpellsWord.eq_of_overlap`), and trees without a common literal take different words
     (`paintRow_apart`).

  Strings and comments follow each other and hide the keywords they overlap, rows stand apart, and cutting
  spans to a window keeps them so (`paint_in_turn`).  The main result is `paint_never_twice`.
-/
import BlockScript.Proofs.KeywordRuns

namespace BlockScript

variable {ignoreCase : Bool}

/-! ## Small letters under the case rule -/

theorem toNat_of_isLower {c : Char} (h : c.isLower) : 97 ≤ c.toNat ∧ c.toNat ≤ 122 := by
  have hval : (decide (97 ≤ c.val) && decide (c.val ≤ 122)) = true := h
  rw [Bool.and_eq_true, decide_eq_true_iff, decide_eq_true_iff] at hval
  exact ⟨UInt32.le_iff_toNat_le.1 hval.1, UInt32.le_iff_toNat_le.1 hval.2⟩

/-- A property of all characters from `a` on, up to the `n`-th, is one of each. -/
theorem of_all_chars {f : Char → Bool} {a n : Nat} (h : ((List.range' a n).map Char.ofNat).all f) {c : Char}
    (hlo : a ≤ c.toNat) (hhi : c.toNat < a + n) : f c := by
  refine List.all_eq_true.1 h c (List.mem_map.2 ⟨c.toNat, ?_, Char.ofNat_toNat c⟩)
  exact List.mem_range'_1.2 ⟨hlo, hhi⟩

theorem needsBoundary_of_isLower {c : Char} (h : c.isLower) : needsBoundary c := by
  have hall : ((List.range' 97 26).map Char.ofNat).all needsBoundary := by decide +kernel
  obtain ⟨hlo, hhi⟩ := toNat_of_isLower h
  exact of_all_chars hall hlo (by omega)

theorem isWordChar_of_isLower {c : Char} (h : c.isLower) : isWordChar c := by
  have hall : ((List.range' 97 26).map Char.ofNat).all isWordChar := by decide +kernel
  obtain ⟨hlo, hhi⟩ := toNat_of_isLower h
  exact of_all_chars hall hlo (by omega)

/-- Folding leaves small letters alone. -/
theorem caseKey_of_isLower {c : Char} (h : c.isLower) : caseKey ignoreCase c = c := by
  obtain ⟨hlo, hhi⟩ := toNat_of_isLower h
  have hnone : caseFolding.runs.find? (·.moves c.toNat) = none := by
    rw [CharMap.find_below (n := 128) (by decide) (by omega)]
    show Option.filter _ (some (⟨0x41, 0x5A, 1, 0x61⟩ : CharRun)) = none
    have hmoves : CharRun.moves ⟨0x41, 0x5A, 1, 0x61⟩ c.toNat = false := by
      simp only [CharRun.moves, Bool.and_eq_false_iff, decide_eq_false_iff_not]
      omega
    rw [Option.filter_some, hmoves]
    rfl
  cases ignoreCase with
  | false => rfl
  | true =>
    show caseFolding.apply c = c
    rw [CharMap.apply, hnone]

/-- The runs that fold characters to ASCII move word characters only. -/
theorem isWordChar_of_moves {r : CharRun} (hr : r ∈ caseFolding.runs) (htarget : r.target ≤ 122) {c : Char}
    (hc : r.moves c.toNat) : isWordChar c := by
  have hall : caseFolding.runs.all fun r => 122 < r.target ||
      ((List.range' r.first (r.last + 1 - r.first)).map Char.ofNat).all isWordChar := by decide +kernel
  have hrun := List.all_eq_true.1 hall r hr
  rw [Bool.or_eq_true, decide_eq_true_iff] at hrun
  simp only [CharRun.moves, Bool.and_eq_true, decide_eq_true_eq] at hc
  exact of_all_chars (hrun.resolve_left (by omega)) hc.1.1 (by omega)

/-- **What counts as a small letter is a word character.**  Besides the ASCII letters these are the long `ſ`
    and the Kelvin sign. -/
theorem isWordChar_of_caseKey {a c : Char} (ha : a.isLower)
    (h : caseKey ignoreCase a = caseKey ignoreCase c) : isWordChar c := by
  obtain ⟨hlo, hhi⟩ := toNat_of_isLower ha
  rw [caseKey_of_isLower ha] at h
  cases ignoreCase with
  | false =>
    obtain rfl : a = c := h
    exact isWordChar_of_isLower ha
  | true =>
    have hfold : caseFolding.apply c = a := h.symm
    rw [CharMap.apply] at hfold
    split at hfold
    · next r hr =>
      have hmoves : r.moves c.toNat := List.find?_some (p := fun r : CharRun => r.moves c.toNat) hr
      refine isWordChar_of_moves (List.mem_of_find?_eq_some hr) ?_ hmoves
      -- a run whose target lies behind `z` leads to no small letter
      by_cases hvalid : (r.target + (c.toNat - r.first)).isValidChar
      · have hchar : Char.ofNat (r.target + (c.toNat - r.first)) = Char.ofNatAux _ hvalid := dif_pos hvalid
        have hvalue : r.target + (c.toNat - r.first) = a.toNat := congrArg Char.toNat (hchar.symm.trans hfold)
        omega
      · have hchar : Char.ofNat (r.target + (c.toNat - r.first)) = '\x00' := dif_neg hvalid
        have hvalue : 0 = a.toNat := congrArg Char.toNat (hchar.symm.trans hfold)
        omega
    · rw [hfold]
      exact isWordChar_of_isLower ha

/-- Whether a literal is made of small letters. -/
def isPlainWord (l : Text) : Bool := !l.isEmpty && l.all Char.isLower

theorem isPlainWord_iff {l : Text} : isPlainWord l ↔ l ≠ [] ∧ ∀ c ∈ l, c.isLower := by
  simp [isPlainWord]

theorem map_caseKey_of_isPlainWord {l : Text} (h : isPlainWord l) : l.map (caseKey ignoreCase) = l :=
  (List.map_congr_left fun c hc => caseKey_of_isLower ((isPlainWord_iff.1 h).2 c hc)).trans (List.map_id l)

/-! ## Whole words -/

/-- Whether a literal is spelled from `p` to `stop` as a whole word of the line: word characters, and none
    next to them. -/
def SpellsWord (ignoreCase : Bool) (line : Text) (p stop : Nat) (l : Text) : Prop :=
  ∃ before w after : Text, line = before ++ (w ++ after) ∧ p = before.size ∧ stop = p + w.size ∧
    l = w.map (caseKey ignoreCase) ∧ (∀ c ∈ w, isWordChar c) ∧
    before.getLast?.any isWordChar = false ∧ after.head?.any isWordChar = false

/-- A place that no word character precedes is not inside a word. -/
theorem size_le_of_clear_left {before w after before' rest : Text} (h : before ++ (w ++ after) = before' ++ rest)
    (hw : ∀ c ∈ w, isWordChar c) (hclear : before'.getLast?.any isWordChar = false)
    (hlt : before'.size < before.size + w.size) : before'.size ≤ before.size := by
  rcases List.append_eq_append_iff.1 h with ⟨x, rfl, hrest⟩ | ⟨x, rfl, -⟩
  · cases hx : x.getLast? with
    | none =>
      obtain rfl := List.getLast?_eq_none_iff.1 hx
      rw [List.append_nil]
    | some c =>
      rw [Text.size_append] at hlt
      rw [List.getLast?_append, hx, Option.some_or, Option.any_some] at hclear
      -- the last character before the place would be one of the word's
      have hin : c ∈ w := by
        rcases List.append_eq_append_iff.1 hrest with ⟨y, rfl, -⟩ | ⟨y, rfl, -⟩
        · rw [Text.size_append] at hlt
          omega
        · exact List.mem_append_left _ (List.mem_of_getLast? hx)
      rw [hw c hin] at hclear
      cases hclear
  · rw [Text.size_append]
    omega

/-- A word ends at a place that no word character follows, or before it. -/
theorem size_le_of_clear_right {w after w' after' : Text} (h : w ++ after = w' ++ after')
    (hw : ∀ c ∈ w, isWordChar c) (hclear : after'.head?.any isWordChar = false) : w.size ≤ w'.size := by
  rcases List.append_eq_append_iff.1 h with ⟨x, rfl, -⟩ | ⟨x, rfl, rfl⟩
  · rw [Text.size_append]
    omega
  · cases x with
    | nil => rw [List.append_nil]
    | cons c x =>
      rw [List.cons_append, List.head?_cons, Option.any_some, hw c (by simp)] at hclear
      cases hclear

namespace SpellsWord

variable {line : Text} {p stop p' stop' : Nat} {l l' : Text}

/-- **Whole words that overlap are one word**, so they spell one literal. -/
theorem eq_of_overlap (h : SpellsWord ignoreCase line p stop l) (h' : SpellsWord ignoreCase line p' stop' l')
    (hlt : p < stop') (hlt' : p' < stop) : l = l' := by
  obtain ⟨before, w, after, rfl, rfl, rfl, rfl, hw, hleft, hright⟩ := h
  obtain ⟨before', w', after', heq, rfl, rfl, rfl, hw', hleft', hright'⟩ := h'
  have hle := size_le_of_clear_left heq hw hleft' hlt'
  have hge := size_le_of_clear_left heq.symm hw' hleft hlt
  obtain ⟨rfl, hrest⟩ := Text.append_inj_of_size heq (Nat.le_antisymm hge hle)
  have hshorter := size_le_of_clear_right hrest hw hright'
  have hlonger := size_le_of_clear_right hrest.symm hw' hright
  obtain ⟨rfl, -⟩ := Text.append_inj_of_size hrest (Nat.le_antisymm hshorter hlonger)
  rfl

end SpellsWord

/-- Whether a place on a line is not inside a word. -/
def Text.ClearAt (line : Text) (cursor : Nat) : Prop :=
  ∀ gone rest : Text, line = gone ++ rest → gone.size = cursor →
    gone.getLast?.any isWordChar = false ∨ rest.head?.any isWordChar = false

theorem Text.clearAt_zero (line : Text) : line.ClearAt 0 := by
  intro gone rest _ hsize
  left
  cases gone with
  | nil => rfl
  | cons c gone =>
    have hpos := c.utf8Size_pos
    rw [Text.size_cons] at hsize
    omega

theorem SpellsWord.clearAt {line l : Text} {p stop : Nat} (h : SpellsWord ignoreCase line p stop l) :
    line.ClearAt stop := by
  obtain ⟨before, w, after, rfl, rfl, rfl, -, -, -, hright⟩ := h
  intro gone rest heq hsize
  rw [← List.append_assoc] at heq
  obtain ⟨-, rfl⟩ := Text.append_inj_of_size heq (by rw [hsize, Text.size_append])
  exact Or.inr hright

/-! ## What trees take -/

theorem any_head? {f : Char → Bool} {l : Text} (hne : l ≠ []) (h : ∀ c ∈ l, f c) : l.head?.any f := by
  cases l with
  | nil => exact absurd rfl hne
  | cons c l => exact h c (List.mem_cons_self ..)

theorem any_getLast? {f : Char → Bool} {l : Text} (hne : l ≠ []) (h : ∀ c ∈ l, f c) : l.getLast?.any f := by
  rw [List.getLast?_eq_some_getLast hne]
  exact h _ (List.getLast_mem hne)

namespace Branches

/-- The literals, those of levels below included. -/
def words : Branches → List Text
  | .nil => []
  | .leaf l rest => l :: rest.words
  | .branch l _ _ children rest => l :: (children.words ++ rest.words)

theorem words_of_mem {bs : Branches} {b : Branch} (hb : b ∈ bs.toList) :
    b.literal ∈ bs.words ∧ ∀ n, b.next = some n → n.children.words ⊆ bs.words := by
  induction bs with
  | nil => cases hb
  | leaf l rest ih =>
    rcases List.mem_cons.1 hb with rfl | hb
    · exact ⟨List.mem_cons_self .., nofun⟩
    · obtain ⟨hliteral, hnext⟩ := ih hb
      exact ⟨List.mem_cons_of_mem _ hliteral, fun n hn x hx => List.mem_cons_of_mem _ (hnext n hn hx)⟩
  | branch l colour anywhere children rest _ ih =>
    rcases List.mem_cons.1 hb with rfl | hb
    · refine ⟨List.mem_cons_self .., ?_⟩
      intro n hn x hx
      obtain rfl := Option.some.inj hn
      exact List.mem_cons_of_mem _ (List.mem_append_left _ hx)
    · obtain ⟨hliteral, hnext⟩ := ih hb
      refine ⟨List.mem_cons_of_mem _ (List.mem_append_right _ hliteral), ?_⟩
      intro n hn x hx
      exact List.mem_cons_of_mem _ (List.mem_append_right _ (hnext n hn hx))

theorem ascii_of_words {bs : Branches} (h : ∀ l ∈ bs.words, isPlainWord l) : bs.ascii := by
  have hplain : ∀ {l : Text}, isPlainWord l → l.all (·.toNat < 128) := by
    intro l hl
    rw [List.all_eq_true]
    intro c hc
    have hbounds := toNat_of_isLower ((isPlainWord_iff.1 hl).2 c hc)
    rw [decide_eq_true_iff]
    omega
  induction bs with
  | nil => rfl
  | leaf l rest ih =>
    rw [ascii, Bool.and_eq_true]
    exact ⟨hplain (h l (List.mem_cons_self ..)), ih fun x hx => h x (List.mem_cons_of_mem _ hx)⟩
  | branch l colour anywhere children rest ihchildren ih =>
    rw [ascii, Bool.and_eq_true, Bool.and_eq_true]
    refine ⟨⟨hplain (h l (List.mem_cons_self ..)), ihchildren fun x hx => ?_⟩, ih fun x hx => ?_⟩
    · exact h x (List.mem_cons_of_mem _ (List.mem_append_left _ hx))
    · exact h x (List.mem_cons_of_mem _ (List.mem_append_right _ hx))

end Branches

namespace KeywordTree

variable {t : KeywordTree} {line : Text} {cursor p stop : Nat}

/-- The literals of a tree, on all its levels. -/
def words (t : KeywordTree) : List Text := t.children.words

/-- **A literal of small letters is reached as a whole word** from a place outside words. -/
theorem Reaches.word {l : Text} (h : t.Reaches ignoreCase line cursor p stop l) (hl : isPlainWord l)
    (hclear : line.ClearAt cursor) : SpellsWord ignoreCase line p stop l := by
  obtain ⟨gone, skipped, w, after, rfl, rfl, rfl, rfl, -, hstands⟩ := h
  obtain ⟨hne, hlower⟩ := isPlainWord_iff.1 hl
  have hword : ∀ c ∈ w, isWordChar c := by
    intro c hc
    have hkey : caseKey ignoreCase c ∈ l.map (caseKey ignoreCase) := by
      rw [hstands.spelled]
      exact List.mem_map_of_mem hc
    obtain ⟨a, ha, hsame⟩ := List.mem_map.1 hkey
    exact isWordChar_of_caseKey (hlower a ha) hsame
  have hwne : w ≠ [] := by
    rintro rfl
    exact hne (List.length_eq_zero_iff.1 hstands.length_eq)
  have hbound : ∀ c ∈ l, needsBoundary c := fun c hc => needsBoundary_of_isLower (hlower c hc)
  have hleft := hstands.left (any_head? hne hbound)
  have hright := hstands.right (any_getLast? hne hbound)
  rw [wordBoundary, any_head? hwne hword] at hleft
  rw [wordBoundary, any_getLast? hwne hword] at hright
  refine ⟨gone ++ skipped, w, after, by simp, by rw [Text.size_append], rfl, ?_, hword, ?_, by simpa using hright⟩
  · rw [← hstands.spelled, map_caseKey_of_isPlainWord hl]
  · cases hs : skipped.getLast? with
    | some c =>
      rw [List.getLast?_append, hs, Option.some_or] at hleft ⊢
      simpa using hleft
    | none =>
      -- right at the cursor, what stands before it counts only if it is looked at; it is no word anyway
      obtain rfl := List.getLast?_eq_none_iff.1 hs
      rw [List.append_nil]
      refine (hclear gone (w ++ after) rfl rfl).resolve_right ?_
      rw [List.head?_append_of_ne_nil _ hwne, any_head? hwne hword]
      exact Bool.noConfusion

/-- **A run goes from word to word.**  From a place outside words, a tree whose literals are among the words
    `ws` of small letters takes such words only, and ends outside words. -/
theorem Matches.words {o : Option KeywordTree} {spans : List Span} {last : Nat} {ws : List Text}
    (h : Matches ignoreCase line o cursor spans last) (hws : ∀ l ∈ ws, isPlainWord l)
    (ho : ∀ t, o = some t → t.words ⊆ ws) (hclear : line.ClearAt cursor) :
    line.ClearAt last ∧ ∀ s ∈ spans, ∃ l ∈ ws, SpellsWord ignoreCase line s.start s.stop l := by
  -- one step: the literal taken is a word, and the level behind it starts at the end of that word
  have hstep : ∀ {t : KeywordTree} {b : Branch} {cursor p stop : Nat}, t.Takes ignoreCase line cursor p stop b →
      t.words ⊆ ws → line.ClearAt cursor → b.literal ∈ ws ∧ SpellsWord ignoreCase line p stop b.literal ∧
        ∀ n, b.next = some n → n.words ⊆ ws := by
    intro t b cursor p stop htakes ht hclear
    obtain ⟨hliteral, hnext⟩ := Branches.words_of_mem htakes.mem
    have hmem := ht hliteral
    exact ⟨hmem, htakes.reaches.word (hws _ hmem) hclear, fun n hn x hx => ht (hnext n hn hx)⟩
  induction h with
  | leaf => exact ⟨hclear, nofun⟩
  | missed _ => exact ⟨hclear, nofun⟩
  | once _ htakes _ ih =>
    obtain ⟨hmem, hword, hnext⟩ := hstep htakes (ho _ rfl) hclear
    obtain ⟨hlast, hbelow⟩ := ih hnext hword.clearAt
    refine ⟨hlast, ?_⟩
    intro s hs
    rcases List.mem_cons.1 hs with rfl | hs
    · exact ⟨_, hmem, hword⟩
    · exact hbelow s hs
  | again _ htakes _ _ ihbelow ihothers =>
    obtain ⟨hmem, hword, hnext⟩ := hstep htakes (ho _ rfl) hclear
    obtain ⟨hafter, hbelow⟩ := ihbelow hnext hword.clearAt
    obtain ⟨hlast, hothers⟩ := ihothers ho hafter
    refine ⟨hlast, ?_⟩
    intro s hs
    rcases List.mem_append.1 hs with hs | hs
    · rcases List.mem_cons.1 hs with rfl | hs
      · exact ⟨_, hmem, hword⟩
      · exact hbelow s hs
    · exact hothers s hs

end KeywordTree

/-! ## Spans that stand apart -/

/-- Whether two spans have nothing in common. -/
def Span.Apart (s s' : Span) : Prop := s.stop ≤ s'.start ∨ s'.stop ≤ s.start

theorem Span.Apart.symm {s s' : Span} (h : s.Apart s') : s'.Apart s := Or.symm h

/-- Spans of different rows stand apart. -/
theorem Text.RowsApart.spans {r r' : Nat × Text} {s s' : Span} (h : RowsApart r r')
    (hs : s.Inside r.1 (r.1 + size r.2)) (hs' : s'.Inside r'.1 (r'.1 + size r'.2)) : s.Apart s' := by
  obtain ⟨hlo, -, hhi⟩ := hs
  obtain ⟨hlo', -, hhi'⟩ := hs'
  unfold RowsApart at h
  unfold Span.Apart
  omega

namespace Matcher

variable {t t' : KeywordTree} {m m' : Matcher}

theorem compile_of_check (h : t.children.check ignoreCase [] = .ok ()) :
    compile t ignoreCase = .ok ⟨t.ordered, ignoreCase⟩ := by
  unfold compile
  rw [h]
  rfl

/-- The keywords of a row follow each other, and each is a whole word. -/
theorem paintRow_words (hm : compile t ignoreCase = .ok m) (ht : ∀ l ∈ t.words, isPlainWord l) (p : Nat)
    (row : Text) :
    ((m.paintRow p row).Pairwise fun s s' => s.stop ≤ s'.start) ∧
      ∀ s ∈ m.paintRow p row, ∃ l ∈ t.words, ∃ start stop, SpellsWord ignoreCase row start stop l ∧
        s.start = p + start ∧ s.stop = p + stop := by
  have hapart : ∀ s, t.Level s → s.TellsApart ignoreCase :=
    fun s hs => tellsApart_of_compile hm (fun _ => Branches.ascii_of_words ht) hs
  have hmatches := KeywordTree.matches_run t row 0 hapart
  obtain ⟨-, rfl⟩ := compile_eq_ok hm
  constructor
  · rw [paintRow, List.pairwise_map]
    refine hmatches.ascends.apart.imp ?_
    intro s s' h
    exact Nat.add_le_add_left h p
  · intro s hs
    obtain ⟨found, hfound, rfl⟩ := List.mem_map.1 hs
    have hwords := hmatches.words ht (fun x hx => by rw [Option.some.inj hx]; exact fun _ h => h)
      (Text.clearAt_zero row)
    obtain ⟨l, hl, hword⟩ := hwords.2 found hfound
    exact ⟨l, hl, found.start, found.stop, hword, rfl, rfl⟩

/-- **Trees without a common literal take different words.** -/
theorem paintRow_apart (hm : compile t ignoreCase = .ok m) (hm' : compile t' ignoreCase = .ok m')
    (ht : ∀ l ∈ t.words, isPlainWord l) (ht' : ∀ l ∈ t'.words, isPlainWord l) (hdiffer : t.words.Disjoint t'.words)
    {p : Nat} {row : Text} {s s' : Span} (hs : s ∈ m.paintRow p row) (hs' : s' ∈ m'.paintRow p row) :
    s.Apart s' := by
  obtain ⟨l, hl, start, stop, hword, hstart, hstop⟩ := (paintRow_words hm ht p row).2 s hs
  obtain ⟨l', hl', start', stop', hword', hstart', hstop'⟩ := (paintRow_words hm' ht' p row).2 s' hs'
  by_contra hover
  unfold Span.Apart at hover
  obtain rfl := hword.eq_of_overlap hword' (by omega) (by omega)
  exact hdiffer hl hl'

end Matcher

/-- The strings and comments of a row follow each other. -/
theorem Dialect.paintLiterals_apart (d : Dialect) (before : Option Char) (p n : Nat) (t : Text) :
    (d.paintLiterals before p n t).Pairwise fun s s' => s.stop ≤ s'.start := by
  fun_induction paintLiterals d before p n t with
  | case1 => exact .nil
  | case2 => exact .nil
  | case3 => exact List.pairwise_singleton ..
  | case4 before p n c cs hn hclass m string ih =>
    refine List.pairwise_cons.2 ⟨?_, ih⟩
    intro s hs
    exact (d.paintLiterals_inside _ _ _ _ s hs).le_start
  | case5 before p n c cs hn _ _ ih => exact ih

namespace Painter

variable {trees : List KeywordTree} {d : Dialect} {P : Painter}

theorem mapM_compile_eq_ok_iff {ms : List Matcher} :
    trees.mapM (Matcher.compile · ignoreCase) = .ok ms ↔
      (∀ x ∈ trees, x.children.check ignoreCase [] = .ok ()) ∧ ms = trees.map fun x => ⟨x.ordered, ignoreCase⟩ := by
  induction trees generalizing ms with
  | nil =>
    rw [List.mapM_nil]
    constructor
    · intro h
      obtain rfl := Except.ok.inj h
      exact ⟨nofun, rfl⟩
    · rintro ⟨-, rfl⟩
      rfl
  | cons x trees ih =>
    rw [List.mapM_cons]
    constructor
    · intro h
      cases hm : Matcher.compile x ignoreCase with
      | error e =>
        rw [hm] at h
        cases h
      | ok m =>
        rw [hm] at h
        cases hrest : trees.mapM (Matcher.compile · ignoreCase) with
        | error e =>
          rw [hrest] at h
          cases h
        | ok rest =>
          rw [hrest] at h
          obtain rfl := Except.ok.inj h
          obtain ⟨hall, rfl⟩ := ih.1 hrest
          obtain ⟨hcheck, rfl⟩ := Matcher.compile_eq_ok hm
          exact ⟨List.forall_mem_cons.2 ⟨hcheck, hall⟩, rfl⟩
    · rintro ⟨hall, rfl⟩
      obtain ⟨hcheck, hrest⟩ := List.forall_mem_cons.1 hall
      rw [Matcher.compile_of_check hcheck, ih.2 ⟨hrest, rfl⟩]
      rfl

/-- A painter has the matchers of its trees, in their order, if they all pass their checks. -/
theorem compile_eq_ok_iff : compile trees d = .ok P ↔
    (∀ x ∈ trees, x.children.check d.ignoreCase [] = .ok ()) ∧
      P = ⟨d, trees.map fun x => ⟨x.ordered, d.ignoreCase⟩⟩ := by
  unfold compile
  constructor
  · intro h
    cases hms : trees.mapM (Matcher.compile · d.ignoreCase) with
    | error e =>
      rw [hms] at h
      cases h
    | ok ms =>
      rw [hms] at h
      obtain rfl := Except.ok.inj h
      obtain ⟨hall, rfl⟩ := mapM_compile_eq_ok_iff.1 hms
      exact ⟨hall, rfl⟩
  · rintro ⟨hall, rfl⟩
    rw [mapM_compile_eq_ok_iff.2 ⟨hall, rfl⟩]
    rfl

variable {t : Text} {rows : List (Nat × Text)}

theorem literals_apart (hrows : ∀ r ∈ rows, t.RowAt r.1 r.2) (hapart : rows.Pairwise Text.RowsApart) :
    (P.literals t rows).Pairwise Span.Apart := by
  rw [literals, List.pairwise_flatMap]
  constructor
  · intro r _
    rw [literalsOfRow]
    split
    · exact (P.dialect.paintLiterals_apart ..).imp Or.inl
    · exact .nil
  · refine hapart.imp_of_mem ?_
    intro r r' hr hr' h s hs s' hs'
    exact h.spans (P.literalsOfRow_inside (hrows r hr) s hs) (P.literalsOfRow_inside (hrows r' hr') s' hs')

section

-- trees of words in small letters, no word in two of them
variable (hP : compile trees d = .ok P) (hplain : ∀ x ∈ trees, ∀ l ∈ x.words, isPlainWord l)
  (hdiffer : trees.Pairwise fun x y => x.words.Disjoint y.words)

include hP hplain hdiffer

theorem keywords_apart (hapart : rows.Pairwise Text.RowsApart) : (P.keywords rows).Pairwise Span.Apart := by
  obtain ⟨hcheck, heq⟩ := compile_eq_ok_iff.1 hP
  have hmatchers : P.matchers = trees.map fun x => ⟨x.ordered, d.ignoreCase⟩ := congrArg matchers heq
  have hcompile : ∀ x ∈ trees, Matcher.compile x d.ignoreCase = .ok ⟨x.ordered, d.ignoreCase⟩ :=
    fun x hx => Matcher.compile_of_check (hcheck x hx)
  rw [keywords, List.pairwise_flatMap]
  constructor
  · intro r _
    rw [hmatchers, List.pairwise_flatMap, List.pairwise_map]
    constructor
    · intro m hm
      obtain ⟨x, hx, rfl⟩ := List.mem_map.1 hm
      exact (Matcher.paintRow_words (hcompile x hx) (hplain x hx) _ _).1.imp Or.inl
    · refine hdiffer.imp_of_mem ?_
      intro x y hx hy hxy s hs s' hs'
      exact Matcher.paintRow_apart (hcompile x hx) (hcompile y hy) (hplain x hx) (hplain y hy) hxy hs hs'
  · refine hapart.imp ?_
    intro r r' h s hs s' hs'
    have hmem : s ∈ P.keywords [r] := List.mem_flatMap.2 ⟨r, List.mem_singleton.2 rfl, hs⟩
    have hmem' : s' ∈ P.keywords [r'] := List.mem_flatMap.2 ⟨r', List.mem_singleton.2 rfl, hs'⟩
    exact h.spans (keywords_inside hmem) (keywords_inside hmem')

/-- The spans of rows stand apart: a keyword that is visible overlaps no string and no comment. -/
theorem spans_apart (hrows : ∀ r ∈ rows, t.RowAt r.1 r.2) (hapart : rows.Pairwise Text.RowsApart) :
    (P.literals t rows ++ P.visible t rows).Pairwise Span.Apart := by
  rw [List.pairwise_append]
  refine ⟨literals_apart hrows hapart, (keywords_apart hP hplain hdiffer hapart).filter _, ?_⟩
  intro s hs k hk
  have hhidden := (List.mem_filter.1 hk).2
  have hover : s.overlaps k.start k.stop = false := by
    rw [Bool.not_eq_true', List.any_eq_false] at hhidden
    simpa using hhidden s hs
  simp only [Span.overlaps, Bool.and_eq_false_iff, decide_eq_false_iff_not] at hover
  unfold Span.Apart
  omega

/-- **Spans come in turn.**  The spans of a window are not empty, lie inside it, and each ends where the next
    one starts or before. -/
theorem paint_in_turn (t : Text) {start stop : Nat} (h : start < stop) :
    (∀ s ∈ P.paint t start stop, s.Inside start stop) ∧
      (P.paint t start stop).Pairwise fun s s' => s.stop ≤ s'.start := by
  have hrows : ∀ r ∈ (t.rowsFrom 0).filter (t.touches start stop), t.RowAt r.1 r.2 :=
    fun r hr => rowAt_of_mem (List.mem_filter.1 hr).1
  have hspans := spans_apart hP hplain hdiffer hrows ((Text.rowsFrom_apart 0 t).filter _)
  have hinside : ∀ s ∈ P.paint t start stop, s.Inside start stop := by
    intro s hs
    rw [paint_eq_spans, List.mem_mergeSort] at hs
    obtain ⟨whole, hwhole, rfl⟩ := List.mem_map.1 hs
    obtain ⟨hmem, hover⟩ := List.mem_filter.1 hwhole
    have hlt := (P.spans_inside t hmem).start_lt
    simp only [Span.overlaps, Bool.and_eq_true, decide_eq_true_eq] at hover
    refine ⟨Nat.le_max_right .., ?_, Nat.min_le_right ..⟩
    show max whole.start start < min whole.stop stop
    omega
  refine ⟨hinside, ?_⟩
  have hcut : (P.paint t start stop).Pairwise Span.Apart := by
    rw [paint_eq]
    refine (List.mergeSort_perm ..).symm.pairwise (List.pairwise_map.2 ?_) Span.Apart.symm
    refine (hspans.filter _).imp ?_
    intro s s' hss
    unfold Span.Apart at hss ⊢
    simp only [Span.clip]
    omega
  have hsorted : (P.paint t start stop).Pairwise fun s s' => s.le s' := by
    rw [paint_eq]
    exact List.pairwise_mergeSort Span.le_trans Span.le_total _
  refine (hcut.and hsorted).imp_of_mem ?_
  rintro s s' hs hs' ⟨hss, hle⟩
  have hlt := (hinside s hs).start_lt
  have hlt' := (hinside s' hs').start_lt
  simp only [Span.le, Bool.or_eq_true, Bool.and_eq_true, decide_eq_true_eq] at hle
  unfold Span.Apart at hss
  omega

end

/-- The trees of scripts pass their checks in every dialect. -/
theorem compile_defaultTrees (d : Dialect) :
    compile defaultTrees d = .ok ⟨d, defaultTrees.map fun x => ⟨x.ordered, d.ignoreCase⟩⟩ := by
  have hall : ∀ ignoreCase, defaultTrees.all fun x => (x.children.check ignoreCase []).isOk := by decide +kernel
  refine compile_eq_ok_iff.2 ⟨?_, rfl⟩
  intro x hx
  have hok := List.all_eq_true.1 (hall d.ignoreCase) x hx
  cases hcheck : x.children.check d.ignoreCase [] with
  | error e =>
    rw [hcheck] at hok
    cases hok
  | ok u => rfl

/-- **Nothing is painted twice.**  The keyword trees of scripts give a painter for every dialect.  In every
    window of every text its spans are not empty, lie inside the window, and each ends where the next one
    starts or before. -/
theorem paint_never_twice (d : Dialect) :
    ∃ P, compile defaultTrees d = .ok P ∧ ∀ (t : Text) (start stop : Nat), start < stop →
      (∀ s ∈ P.paint t start stop, start ≤ s.start ∧ s.start < s.stop ∧ s.stop ≤ stop) ∧
      (P.paint t start stop).Pairwise fun s s' => s.stop ≤ s'.start := by
  have hplain : defaultTrees.all fun x => x.words.all isPlainWord := by decide
  have hdiffer : defaultTrees.Pairwise fun x y => x.words.all (!y.words.contains ·) := by decide
  refine ⟨_, compile_defaultTrees d, ?_⟩
  intro t start stop h
  have hturn := paint_in_turn (compile_defaultTrees d)
    (fun x hx l hl => List.all_eq_true.1 (List.all_eq_true.1 hplain x hx) l hl)
    (hdiffer.imp fun {x y} hxy l hl hl' => by simpa [hl'] using List.all_eq_true.1 hxy l hl) t h
  exact ⟨fun s hs => ⟨(hturn.1 s hs).le_start, (hturn.1 s hs).start_lt, (hturn.1 s hs).stop_le⟩, hturn.2⟩

/-- A window that cuts both words of an `else if`. -/
theorem paint_never_twice_else_if : ∃ P, compile defaultTrees {} = .ok P ∧
    ⟨.keyword, 2, 4⟩ ∈ P.paint "else if".toList 2 6 ∧ ⟨.keyword, 5, 6⟩ ∈ P.paint "else if".toList 2 6 ∧
    (P.paint "else if".toList 2 6).Pairwise fun s s' => s.stop ≤ s'.start := by
  let t : Text := "else if".toList
  let P : Painter := ⟨{}, defaultTrees.map fun x => ⟨x.ordered, true⟩⟩
  obtain ⟨P', hP, hturn⟩ := paint_never_twice {}
  obtain rfl : P = P' := Except.ok.inj ((compile_defaultTrees {}).symm.trans hP)
  -- the words are found by the first tree, one behind the other
  let statements : KeywordTree := defaultTrees.get ⟨0, by decide⟩
  let follow : KeywordTree := .ofWords .keyword false ["if"]
  have helse : statements.ordered.find true t 0 = some ⟨0, 4, ⟨"else".toList, some follow⟩⟩ := rfl
  have hif : follow.find true t 4 = some ⟨5, 7, ⟨"if".toList, none⟩⟩ := rfl
  have hrun : statements.ordered.run true t 0 = ([⟨.keyword, 0, 4⟩, ⟨.keyword, 5, 7⟩], 7) :=
    KeywordTree.run_once rfl helse (KeywordTree.run_once rfl hif rfl)
  have hliterals : P.literals t [(0, t)] = [] := by decide +kernel
  have hshown : ∀ s ∈ (statements.ordered.run true t 0).1, s ∈ P.spans t := by
    intro s hs
    refine List.mem_append_right _ (List.mem_flatMap.2 ⟨(0, t), List.mem_singleton.2 rfl, ?_⟩)
    refine List.mem_filter.2 ⟨?_, by rw [hliterals]; rfl⟩
    refine List.mem_flatMap.2 ⟨(0, t), List.mem_singleton.2 rfl, ?_⟩
    refine List.mem_flatMap.2 ⟨⟨statements.ordered, true⟩, List.mem_cons_self .., ?_⟩
    exact List.mem_map.2 ⟨s, hs, by simp [Span.shift]⟩
  rw [hrun] at hshown
  refine ⟨P, hP, ?_, ?_, (hturn t 2 6 (by decide)).2⟩
  · rw [paint_eq_spans, List.mem_mergeSort]
    exact List.mem_map.2 ⟨⟨.keyword, 0, 4⟩, List.mem_filter.2 ⟨hshown _ (by simp), rfl⟩, rfl⟩
  · rw [paint_eq_spans, List.mem_mergeSort]
    exact List.mem_map.2 ⟨⟨.keyword, 5, 7⟩, List.mem_filter.2 ⟨hshown _ (by simp), rfl⟩, rfl⟩

end Painter

end BlockScript
