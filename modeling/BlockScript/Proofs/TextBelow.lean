/-
  Text below a line never changes the answers above it.

  A text `u` that is empty or ends in a line break is followed by some text `v`.  Every line that starts
  in `u` ends in it, so it is read alike whatever `v` is (`lineAt_above`).  A scanner that looks back from
  inside `u` only meets such lines (`prev_above`); one that looks ahead finds a token before it leaves the
  line, since the break at the end of the line is one (`next_above`).  The searches look ahead in two
  places only, behind an `else` and behind a `for`, and either stops before `u` does (`stop_lt_of_mem`).

  So `u` followed by `v` mirrors `u` alone (`above`): each search finds in it what it finds in `u`, and leaves
  the same scanner behind, with the same part of the budget spent.  `answers_above` compares two
  continuations.
-/
import BlockScript.Nesting.Closing
import BlockScript.Proofs.IndentLevels
import BlockScript.Proofs.LineLocality
import BlockScript.Proofs.ScanLimit
import BlockScript.Proofs.SearchSteps

namespace BlockScript

/-! ## Lines above -/

namespace Text

/-- The line of offset `p` in `u` is `w` with its break, and is found there whatever follows `u`. -/
structure LineAbove (u : Text) (p : Nat) (before w more : Text) : Prop where
  text : u = before ++ (w ++ '\n' :: more)
  noBreak : ∀ c ∈ w, c ≠ '\n'
  alone : lineAt u p = (before.size, w ++ '\n' :: more)
  above : ∀ v, lineAt (u ++ v) p = (before.size, w ++ '\n' :: (more ++ v))

variable {u before w more : Text} {p : Nat}

theorem LineAbove.lineStart (h : LineAbove u p before w more) : lineStart u p = before.size := by
  rw [Text.lineStart, h.alone]

theorem LineAbove.text_append (h : LineAbove u p before w more) (v : Text) :
    u ++ v = before ++ (w ++ '\n' :: (more ++ v)) := by
  rw [h.text, List.append_assoc, List.append_assoc, List.cons_append]

/-- Every line of a text that is empty or ends in a line break is a line whatever follows. -/
theorem exists_lineAbove (hu : u.EndsLine) (hp : p < u.size) :
    ∃ before w more, LineAbove u p before w more := by
  obtain ⟨before, hsplit, hsize, hends⟩ := lineAt_split u p
  have hle := lineAt_start_le u p
  have hlt := lineAt_lt_stop hp
  have halone : lineAt u p = (before.size, (lineAt u p).2) := by rw [hsize]
  rw [← hsize] at hle hlt
  generalize (lineAt u p).2 = rest at hsplit hlt halone
  have hne : rest ≠ [] := by
    rintro rfl
    simp only [firstLine, size_nil] at hlt
    omega
  obtain ⟨line, more, rfl, hline, hisline, -⟩ := exists_isLine hne
  rw [hsplit] at hu
  obtain ⟨w, hw, rfl⟩ : ∃ w : Text, (∀ c ∈ w, c ≠ '\n') ∧ line = w ++ ['\n'] := by
    rcases hisline with h | ⟨hw, rfl⟩
    · exact h
    · rw [List.append_nil] at hu
      have hlast := hu.right.resolve_left hline
      exact absurd rfl (hw '\n' (List.mem_of_getLast? hlast))
  have hfirst : ∀ t, firstLine (w ++ ['\n'] ++ t) = w ++ ['\n'] := fun t =>
    IsLine.firstLine (.inl ⟨w, hw, rfl⟩)
  rw [hfirst] at hlt
  refine ⟨before, w, more, by simp [hsplit], hw, by simpa using halone, ?_⟩
  intro v
  have htext : u ++ v = before ++ (w ++ ['\n'] ++ (more ++ v)) := by simp [hsplit]
  rw [htext, lineAt_append hends hle]
  · simp
  · rw [hfirst]
    exact hlt
  · rw [← htext, size_append]
    omega

theorem lineStart_above (hu : u.EndsLine) (hp : p < u.size) (v : Text) :
    lineStart (u ++ v) p = lineStart u p := by
  obtain ⟨before, w, more, h⟩ := exists_lineAbove hu hp
  rw [h.lineStart, lineStart, h.above]

/-- The line of an offset above ends in the same place whatever follows. -/
theorem lineEnd_above (hu : u.EndsLine) (hp : p < u.size) (v : Text) :
    lineEnd (u ++ v) (lineStart u p) = lineEnd u (lineStart u p) := by
  obtain ⟨before, w, more, h⟩ := exists_lineAbove hu hp
  have hends : ∀ t : Text, lineEnd (before ++ (w ++ '\n' :: t)) before.size = before.size + size w := by
    intro t
    rw [lineEnd_append, takeWhile_ne_append h.noBreak]
  rw [h.lineStart, h.text_append, hends]
  nth_rewrite 1 [h.text]
  rw [hends]

end Text

namespace Layout

/-- The columns at the front of a line are counted up to its break. -/
theorem leadingColumns_break (l : Layout) (w t t' : Text) :
    l.leadingColumns (w ++ '\n' :: t) = l.leadingColumns (w ++ '\n' :: t') := by
  induction w with
  | nil => rfl
  | cons c w ih =>
    rw [List.cons_append, List.cons_append]
    unfold leadingColumns
    split <;> split <;> simp_all

/-- The columns at the front of a line above are the same whatever follows. -/
theorem leadingColumns_above (l : Layout) {u : Text} {p : Nat} (hu : u.EndsLine) (hp : p < u.size)
    (v : Text) :
    l.leadingColumns (Text.slice (u ++ v) (u.lineStart p) (Text.size (u ++ v))) =
      l.leadingColumns (u.slice (u.lineStart p) u.size) := by
  obtain ⟨before, w, more, h⟩ := Text.exists_lineAbove hu hp
  have hfrom : Text.slice u before.size u.size = w ++ '\n' :: more := by
    rw [h.text, Text.slice_size_append]
  rw [h.lineStart, h.text_append, Text.slice_size_append, hfrom]
  exact l.leadingColumns_break w _ _

end Layout

/-! ## Tokens above -/

namespace Dialect

variable {d : Dialect} {u : Text} {p : Nat}

/-- **A line above is read alike whatever follows.** -/
theorem lineAt_above (hm : '\n' ∉ d.marker) (hu : u.EndsLine) (hp : p < u.size) (v : Text) :
    d.lineAt (.ofText (u ++ v)) p = d.lineAt (.ofText u) p := by
  obtain ⟨before, w, more, h⟩ := Text.exists_lineAbove hu hp
  simp only [lineAt, Buffer.ofText_text, h.above, h.alone, pieces_break hm none h.noBreak]

/-- The break at the end of a line above is a token, so something is found ahead of every offset. -/
theorem exists_token_above (hm : '\n' ∉ d.marker) (hu : u.EndsLine) (hp : p < u.size) :
    ∃ x ∈ (d.lineAt (.ofText u) p).tokens, p < x.stop := by
  obtain ⟨before, w, more, h⟩ := Text.exists_lineAbove hu hp
  have hpieces : (d.pieces none (w ++ '\n' :: more)).1 = (d.pieces none (w ++ ['\n'])).1 := by
    rw [pieces_break hm none h.noBreak, pieces_break hm none h.noBreak]
  have htokens : (d.lineAt (.ofText u) p).tokens =
      d.tokensOf (place before.size (d.pieces none w).1) ++
        [⟨.separator, before.size + w.size, before.size + w.size + 1, none⟩] := by
    simp only [lineAt, Buffer.ofText_text, h.alone, hpieces, tokensOf_snoc_break hm h.noBreak]
  have hlt : p < before.size + (w.size + 1) := by
    have hisline : Text.IsLine (w ++ ['\n']) more := .inl ⟨w, h.noBreak, rfl⟩
    have hfirst := hisline.firstLine
    have hstop := Text.lineAt_lt_stop hp
    rw [List.append_assoc, List.singleton_append] at hfirst
    rwa [h.alone, hfirst, Text.size_append] at hstop
  exact ⟨⟨.separator, before.size + w.size, before.size + w.size + 1, none⟩, by simp [htokens], hlt⟩

/-- No token above reaches the end of the last line, its break apart. -/
theorem stop_lt_of_mem (hm : '\n' ∉ d.marker) (hu : u.EndsLine) {x : Token} (hx : x ∈ d.tokenize u)
    (hk : x.kind ≠ .separator) : x.stop < u.size := by
  rcases hu with rfl | hlast
  · rw [tokenize, tokenizeFrom_nil] at hx
    cases hx
  · obtain ⟨w, rfl⟩ := List.getLast?_eq_some_iff.1 hlast
    rw [tokenize, tokenizeFrom_snoc_break hm, List.mem_append, List.mem_singleton] at hx
    rcases hx with hx | rfl
    · have := ((d.tokenize_laid w).bounds hx).2.2
      rw [Text.size_append]
      show x.stop < Text.size w + 1
      omega
    · exact absurd rfl hk

end Dialect

/-! ## Scanners above -/

namespace Scanner

variable {d : Dialect} {u : Text} {s : Scanner} {p : Nat}

theorem lineAt_above (hm : '\n' ∉ d.marker) (hu : u.EndsLine) (hp : p < u.size) (v : Text) :
    s.lineAt d (.ofText (u ++ v)) p = s.lineAt d (.ofText u) p := by
  unfold lineAt lineAt.fresh
  rw [Dialect.lineAt_above hm hu hp]

theorem prevWithin_above (hm : '\n' ∉ d.marker) (hu : u.EndsLine) (hp : p ≤ u.size) (v : Text) :
    s.prevWithin d (.ofText (u ++ v)) p = s.prevWithin d (.ofText u) p := by
  refine ((prevSearch d (.ofText u)).run_map_of (prevSearch d (.ofText (u ++ v))).run_eq (f := id) (g := id)
    (I := fun s => s.2 ≤ u.size) (J := fun _ => True) (s := (s, p)) ?_ hp).1
  rintro ⟨s, p⟩ hp
  have hle := s.visit.lineAt_start_le d (.ofText u) (p - 1)
  dsimp only [prevSearch, id] at hp ⊢
  rw [Sum.map_id_id, id]
  by_cases h0 : p = 0
  · rw [if_pos h0, if_pos h0]
    exact ⟨rfl, trivial⟩
  · rw [if_neg h0, if_neg h0, lineAt_above hm hu (by omega)]
    refine ⟨rfl, ?_⟩
    split
    · trivial
    · rw [behindTurn]
      cases (s.visit.lineAt d (.ofText u) (p - 1)).1.tokens.reverse.find? (·.start < p) with
      | none => exact show _ ≤ u.size by omega
      | some x => trivial

/-- Looking back from above meets the same token, and spends the same part of the budget. -/
theorem prev_above (hm : '\n' ∉ d.marker) (hu : u.EndsLine) (hp : p ≤ u.size) (v : Text) :
    s.prev d (.ofText (u ++ v)) p = s.prev d (.ofText u) p := by
  have hall : min p (Buffer.ofText (u ++ v)).size = p := by
    rw [Buffer.ofText_size, Text.size_append]
    omega
  have halone : min p (Buffer.ofText u).size = p := by
    rw [Buffer.ofText_size]
    omega
  rw [prev, prev, hall, halone]
  exact prevWithin_above hm hu hp v

/-- Looking ahead from above does not leave the line. -/
theorem next_above (hm : '\n' ∉ d.marker) (hu : u.EndsLine) (hs : s.Sound d (.ofText u))
    (hp : p < u.size) (v : Text) : s.next d (.ofText (u ++ v)) p = s.next d (.ofText u) p := by
  have hall : p < (Buffer.ofText (u ++ v)).size := by
    rw [Buffer.ofText_size, Text.size_append]
    omega
  rw [next, next, dif_pos hall, dif_pos (show p < (Buffer.ofText u).size from hp), lineAt_above hm hu hp]
  dsimp only
  split
  · rfl
  · split
    · rfl
    · next hmissed =>
      obtain ⟨x, hx, hlt⟩ := Dialect.exists_token_above hm hu hp
      rw [(lineAt_spec ((visit_follows s).sound hs) hp).1] at hmissed
      exact absurd hlt (by simpa using List.find?_eq_none.1 hmissed x hx)

end Scanner

/-! ## Searches above -/

namespace Profile

variable {P : Profile} {u : Text} {s : Scanner} {p : Nat} {t : Token}

/-- **A text above is seen as it is whatever follows**, so all searches in it agree. -/
def above (hm : '\n' ∉ P.dialect.marker) (hu : u.EndsLine) (v : Text) :
    Mirror P (.ofText u) (.ofText (u ++ v)) where
  token := id
  scanner := id
  Sound s := s.Sound P.dialect (.ofText u)
  Own x := x ∈ P.dialect.tokenize u
  Behind p := p ≤ u.size
  Ahead p := p < u.size
  kind_eq _ := rfl
  start_eq _ := rfl
  stop_eq _ := rfl
  asElse_eq _ := rfl
  accepts_eq _ _ := rfl
  namesDiffer_eq _ _ := rfl
  prev_eq _ hp := Scanner.prev_above hm hu hp v
  next_eq hs hp := Scanner.next_above hm hu hs hp v
  prev_sound p hs := (Scanner.prev_spec hs p).follows.sound hs
  next_sound p hs := (Scanner.next_spec hs p).follows.sound hs
  prev_own hs hk := Scanner.prev_mem hs hk
  next_own hs hk := Scanner.next_mem hs hk
  behind_start hx := Nat.le_of_lt (P.dialect.start_lt_size (b := .ofText u) hx)
  ahead_else hx hk := Dialect.stop_lt_of_mem hm hu hx (by simp [hk])

section Searches

variable (hm : '\n' ∉ P.dialect.marker) (hu : u.EndsLine) (hs : s.Sound P.dialect (.ofText u)) (v : Text)

theorem walk_above : (above hm hu v).walk = id := by
  funext w
  simp [Mirror.walk, above]

include hm hu hs

/-- A look around a token above says the same whatever follows. -/
theorem continuesIf_above (ht : t ∈ P.dialect.tokenize u) :
    P.continuesIf (.ofText (u ++ v)) s t = P.continuesIf (.ofText u) s t :=
  ((above hm hu v).continuesIf hs ht).1

/-- Whether an `else` above is flat does not depend on what follows. -/
theorem isFlatElse_above (ht : t ∈ P.dialect.tokenize u) :
    P.isFlatElse (.ofText (u ++ v)) s t = P.isFlatElse (.ofText u) s t :=
  ((above hm hu v).isFlatElse hs ht).1

/-- The nearest unclosed opener above an offset is the same whatever follows, and stands above. -/
theorem unclosedBefore_above (w : Walk) (hp : p ≤ u.size) :
    P.unclosedBefore (.ofText (u ++ v)) s w p = P.unclosedBefore (.ofText u) s w p ∧
      ∀ o, (P.unclosedBefore (.ofText u) s w p).1 = some o → o ∈ P.dialect.tokenize u := by
  obtain ⟨hsame, hown, -⟩ := (above hm hu v).unclosedBefore hs hp w
  rw [walk_above] at hsame
  exact ⟨by simpa [above] using hsame, hown⟩

/-- The opener a keyword above belongs to is the same whatever follows. -/
theorem openerOf_above (hp : t.start ≤ u.size) :
    P.openerOf (.ofText (u ++ v)) s t = P.openerOf (.ofText u) s t := by
  simpa [above] using ((above hm hu v).openerOf hs hp).1

/-- The opener that a line above is aligned with is the same whatever follows, and stands above. -/
theorem alignedWith_above (ht : t ∈ P.dialect.tokenize u) :
    P.alignedWith (.ofText (u ++ v)) s t = P.alignedWith (.ofText u) s t ∧
      ∀ o, (P.alignedWith (.ofText u) s t).1 = some o → o ∈ P.dialect.tokenize u := by
  obtain ⟨hsame, hown, -⟩ := (above hm hu v).alignedWith hs ht
  exact ⟨by simpa [above] using hsame, hown⟩

end Searches

/-- The variable behind a keyword above is looked up on its line. -/
theorem variableBehind_above (hm : '\n' ∉ P.dialect.marker) (hu : u.EndsLine)
    (hs : s.Sound P.dialect (.ofText u)) (ht : t ∈ P.dialect.tokenize u) (hk : t.kind ≠ .separator)
    (v : Text) :
    let x := (s.next P.dialect (.ofText u) t.stop).1
    s.next P.dialect (.ofText (u ++ v)) t.stop = s.next P.dialect (.ofText u) t.stop ∧
      (x.kind = .var → x.textIn (u ++ v) = x.textIn u) := by
  have hstop : t.stop < u.size := Dialect.stop_lt_of_mem hm hu ht hk
  refine ⟨Scanner.next_above hm hu hs hstop v, ?_⟩
  intro hvar
  have hmem : (s.next P.dialect (.ofText u) t.stop).1 ∈ P.dialect.tokenize u :=
    Scanner.next_mem hs (by simp [hvar])
  have hlt := Dialect.stop_lt_of_mem hm hu hmem (by simp [hvar])
  rw [Token.textIn, Token.textIn, Text.slice, Text.slice, Text.slice?_append_left (Nat.le_of_lt hlt)]

/-! ## The answers -/

section Answers

variable (hm : '\n' ∉ P.dialect.marker) (hu : u.EndsLine)

include hm hu

theorem context_above (hp : p ≤ u.size) (v : Text) :
    P.context (.ofText (u ++ v)) p = P.context (.ofText u) p := by
  have hall : min p (Text.size (u ++ v)) = p := by
    rw [Text.size_append]
    omega
  have hsame := (above hm hu v).allUnclosedBefore (P.scanner_sound _) hp {} []
  rw [walk_above] at hsame
  rw [context, context, Buffer.ofText_size, Buffer.ofText_size, hall, Nat.min_eq_left hp]
  exact congrArg (List.map Token.construct) (by simpa [above] using hsame)

theorem closingText_above (hp : p ≤ u.size) (v : Text) :
    P.closingText (.ofText (u ++ v)) p = P.closingText (.ofText u) p := by
  have hall : min p (Text.size (u ++ v)) = p := by
    rw [Text.size_append]
    omega
  obtain ⟨hsame, hmem⟩ := unclosedBefore_above hm hu (P.scanner_sound (.ofText u)) v {} hp
  obtain ⟨post, hcut⟩ := P.dialect.exists_cut u p
  have hs := (unclosedBefore_gives (P.scanner_sound (.ofText u)) {} hcut).follows.sound
    (P.scanner_sound _)
  unfold closingText
  rw [Buffer.ofText_size, Buffer.ofText_size, hall, Nat.min_eq_left hp, hsame]
  generalize P.unclosedBefore (.ofText u) P.scanner {} p = r at hmem hs
  obtain ⟨_ | o, w, s⟩ := r
  · rfl
  · dsimp only at hs ⊢
    cases w.mismatch with
    | some pair => rfl
    | none =>
      dsimp only
      -- only behind a `for` is anything looked up
      split <;> try rfl
      next hk =>
        obtain ⟨hnext, hvar⟩ := variableBehind_above hm hu hs (hmem o rfl) (by simp [hk]) v
        rw [hnext, Buffer.ofText_text, Buffer.ofText_text]
        split
        · next hx => rw [hvar hx]
        · rfl

theorem alignment_above (hp : p < u.size) (hstart : u.lineStart p = p) (v : Text) :
    P.alignment (.ofText (u ++ v)) p = P.alignment (.ofText u) p ∧
      ∀ o, (P.alignment (.ofText u) p).1 = some o → o ∈ P.dialect.tokenize u := by
  have hsound := P.scanner_sound (.ofText u)
  have hend : Text.lineEnd (u ++ v) p = u.lineEnd p := by
    have := Text.lineEnd_above hu hp v
    rwa [hstart] at this
  unfold alignment
  rw [Scanner.next_above hm hu hsound hp]
  dsimp only
  rw [Buffer.ofText_text, Buffer.ofText_text, hend]
  split
  · next hcond =>
    have hk : (P.scanner.next P.dialect (.ofText u) p).1.kind ≠ .edge := by
      simp only [Bool.and_eq_true, decide_eq_true_eq] at hcond
      exact hcond.1
    exact alignedWith_above hm hu ((Scanner.next_spec hsound p).follows.sound hsound) v
      (Scanner.next_mem hsound hk)
  · exact ⟨rfl, fun o ho => by cases ho⟩

/-- The line of an opener above is the same whatever follows. -/
theorem findIndentation_above (hp : p < u.size) (v : Text) :
    P.findIndentation (.ofText (u ++ v)) p = P.findIndentation (.ofText u) p ∧
      ∀ a, (P.findIndentation (.ofText u) p).1.anchor = some a →
        ∃ q, q < u.size ∧ a = u.lineStart q := by
  have hle : u.lineStart p ≤ p := Text.lineAt_start_le u p
  have hself : u.lineStart (u.lineStart p) = u.lineStart p := by
    have hholds := Text.lineAt_eq_of_holds (t := u) (p := u.lineStart p) (q := p) (by omega)
      (Nat.le_refl _) (Nat.lt_of_le_of_lt hle (Text.lineAt_lt_stop hp))
    exact congrArg Prod.fst hholds
  obtain ⟨halign, hmem⟩ := alignment_above (P := P) hm hu (p := u.lineStart p) (by omega) hself v
  have hs := (alignment_follows (P := P) (b := .ofText u) (u.lineStart p)).sound (P.scanner_sound _)
  have hline : ∀ o ∈ P.dialect.tokenize u, o.start < u.size ∧
      Text.lineStart (u ++ v) o.start = u.lineStart o.start := by
    intro o ho
    have hlt : o.start < u.size := P.dialect.start_lt_size (b := .ofText u) ho
    exact ⟨hlt, Text.lineStart_above hu hlt v⟩
  rw [findIndentation_eq, findIndentation_eq, Buffer.ofText_text, Buffer.ofText_text,
    Text.lineStart_above hu hp]
  dsimp only
  rw [halign]
  generalize P.alignment (.ofText u) (u.lineStart p) = q at hmem hs ⊢
  obtain ⟨_ | o, s⟩ := q
  · obtain ⟨hsame, hmem'⟩ := unclosedBefore_above hm hu hs v {} (show u.lineStart p ≤ u.size by omega)
    dsimp only
    rw [hsame]
    generalize P.unclosedBefore (.ofText u) s {} (u.lineStart p) = r at hmem' ⊢
    obtain ⟨_ | o, w, s'⟩ := r
    · exact ⟨rfl, fun a ha => by cases ha⟩
    · obtain ⟨hlt, heq⟩ := hline o (hmem' o rfl)
      simp only [Option.map_some, heq, true_and]
      exact fun a ha => ⟨o.start, hlt, (Option.some.inj ha).symm⟩
  · obtain ⟨hlt, heq⟩ := hline o (hmem o rfl)
    dsimp only
    rw [heq]
    exact ⟨rfl, fun a ha => ⟨o.start, hlt, (Option.some.inj ha).symm⟩⟩

theorem indentation_above (hp : p < u.size) (v : Text) :
    P.indentation (.ofText (u ++ v)) p = P.indentation (.ofText u) p :=
  congrArg Prod.fst (findIndentation_above hm hu hp v).1

theorem indentOf_above (hp : p < u.size) (v : Text) :
    P.indentOf (.ofText (u ++ v)) p = P.indentOf (.ofText u) p := by
  have hanchor : ∀ a, (P.indentation (.ofText u) p).anchor = some a →
      ∃ q, q < u.size ∧ a = u.lineStart q :=
    (findIndentation_above hm hu hp v).2
  unfold indentOf
  rw [indentation_above hm hu hp]
  dsimp only
  split
  · next a ha =>
    obtain ⟨q, hq, rfl⟩ := hanchor a ha
    rw [Buffer.ofText_text, Buffer.ofText_text, Buffer.ofText_size, Buffer.ofText_size,
      P.layout.leadingColumns_above hu hq]
  · rfl

theorem classify_above (hp : p < u.size) (v : Text) :
    P.classify (.ofText (u ++ v)) p = P.classify (.ofText u) p :=
  congrArg Prod.fst (Scanner.next_above hm hu (P.scanner_sound _) hp v)

end Answers

/-! ## Matches above -/

/-- Whether the match of a token of a text is looked for before it: the token is a closer or an inner
    keyword, or the `else` or the `if` of an `else if ... then` line that ends in a block. -/
def LooksBack (P : Profile) (text : Text) (t : Token) : Prop :=
  t.kind.role = .closer ∨ t.kind.role = .inner ∨
    ∃ pre post, P.tokenize text = pre ++ t :: post ∧ t.continuesBetween pre.getLast? post.head?

section Matches

variable (hm : '\n' ∉ P.dialect.marker) (hu : u.EndsLine)

include hm hu

/-- A match that is looked for before its token is the same whatever follows.  It is not the closer of an
    opener, unless the look around an `if` has spent the budget and nothing is found at all. -/
theorem findMatch_above (hp : p < u.size)
    (hopener : let r := P.scanner.next P.dialect (.ofText u) p
      r.1.kind.role = .opener → (P.continuesIf (.ofText u) r.2 r.1).1 = true ∨
        (P.continuesIf (.ofText u) r.2 r.1).2.exhausted = true) (v : Text) :
    P.findMatch (.ofText (u ++ v)) p = P.findMatch (.ofText u) p := by
  have hsame := Scanner.next_above hm hu (P.scanner_sound (.ofText u)) hp v
  by_cases hk : (P.classify (.ofText u) p).kind = .edge
  · rw [findMatch_edge hk, findMatch_edge (by rw [classify_above hm hu hp, hk])]
  · have hsound : ∀ t : Text, (P.scanner.next P.dialect (.ofText t) p).2.Sound P.dialect (.ofText t) :=
      fun t => (Scanner.next_spec (P.scanner_sound _) p).follows.sound (P.scanner_sound _)
    have hs := hsound u
    have hs' := hsound (u ++ v)
    rw [hsame] at hs'
    have ht : (P.scanner.next P.dialect (.ofText u) p).1 ∈ P.dialect.tokenize u :=
      Scanner.next_mem (P.scanner_sound _) hk
    obtain ⟨role, hrole⟩ : ∃ role, (P.scanner.next P.dialect (.ofText u) p).1.kind.role = role := ⟨_, rfl⟩
    rw [findMatch_of_role hrole, findMatch_of_role (show _ = role by rw [hsame, hrole]), hsame]
    dsimp only at hopener ⊢
    generalize P.scanner.next P.dialect (.ofText u) p = r at hopener hs hs' ht hrole
    have hstart : r.1.start ≤ u.size :=
      Nat.le_of_lt (P.dialect.start_lt_size (b := .ofText u) ht)
    have hq := (continuesIf_follows hs r.1).sound hs
    have hq' := (continuesIf_follows hs' r.1).sound hs'
    have hcont := continuesIf_above hm hu hs v ht
    rw [hcont] at hq' ⊢
    generalize P.continuesIf (.ofText u) r.2 r.1 = q at hopener hq hq'
    have hf := (isFlatElse_follows hq r.1).sound hq
    split
    · exact congrArg _ (congrArg Prod.fst (openerOf_above hm hu hq (t := r.1.asElse) v hstart))
    · next hc =>
      split
      · have hspent := (hopener hrole).resolve_left hc
        rw [closerOf, closerOf, closerAfter_spent hq' hspent, closerAfter_spent hq hspent]
      · rfl
      · rw [isFlatElse_above hm hu hq v ht]
        have hsound : (if r.1.kind = .elseBlock then P.isFlatElse (.ofText u) q.2 r.1
            else (false, q.2)).2.Sound P.dialect (.ofText u) := by
          split
          · exact hf
          · exact hq
        rw [openerOf_above hm hu hsound v hstart]

/-- A token that looks back is no opener, or the budget was spent to find that out. -/
theorem LooksBack.opener (hp : p < u.size) {v : Text}
    (h : P.LooksBack (u ++ v) (P.classify (.ofText (u ++ v)) p)) :
    let r := P.scanner.next P.dialect (.ofText u) p
    r.1.kind.role = .opener → (P.continuesIf (.ofText u) r.2 r.1).1 = true ∨
      (P.continuesIf (.ofText u) r.2 r.1).2.exhausted = true := by
  intro r hrole
  have hsame : P.scanner.next P.dialect (.ofText (u ++ v)) p = r :=
    Scanner.next_above hm hu (P.scanner_sound (.ofText u)) hp v
  have hs : r.2.Sound P.dialect (.ofText (u ++ v)) := by
    rw [← hsame]
    exact (Scanner.next_spec (P.scanner_sound _) p).follows.sound (P.scanner_sound _)
  rw [classify, hsame] at h
  rcases h with h | h | ⟨pre, post, htokens, hcont⟩
  · rw [hrole] at h
    cases h
  · rw [hrole] at h
    cases h
  · have hne : r.1.kind ≠ .edge :=
      P.dialect.tokenize_ne_edge (u ++ v) r.1 (by rw [← tokenize, htokens]; simp)
    have hmem : r.1 ∈ P.dialect.tokenize u := Scanner.next_mem (P.scanner_sound _) hne
    have hs' : r.2.Sound P.dialect (.ofText u) :=
      (Scanner.next_spec (P.scanner_sound _) p).follows.sound (P.scanner_sound _)
    have hsplit : P.dialect.tokenize (Buffer.ofText (u ++ v)).text =
        pre.reverse.reverse ++ r.1 :: post := by
      rw [List.reverse_reverse]
      exact htokens
    have hgives := (continuesIf_gives hs hsplit).1
    rw [continuesIf_above hm hu hs' v hmem] at hgives
    rw [List.head?_reverse, hcont] at hgives
    cases he : (P.continuesIf (.ofText u) r.2 r.1).2.exhausted with
    | true => exact Or.inr rfl
    | false => exact Or.inl (hgives.fst_eq he)

end Matches

/-- **Text below a line never changes the answers above it.**  After a text `u` that is empty or ends in a
    line break, whatever follows and however small the budget is: the constructs open at an offset of `u`
    and the text that closes the innermost one, the indentation of each line of `u`, and the match of each
    keyword in `u` that looks back. -/
theorem answers_above (P : Profile) {u : Text} (hm : '\n' ∉ P.dialect.marker) (hu : u.EndsLine)
    (v v' : Text) (p : Nat) :
    (p ≤ u.size →
      P.context (.ofText (u ++ v)) p = P.context (.ofText (u ++ v')) p ∧
        P.closingText (.ofText (u ++ v)) p = P.closingText (.ofText (u ++ v')) p) ∧
    (p < u.size →
      P.indentation (.ofText (u ++ v)) p = P.indentation (.ofText (u ++ v')) p ∧
        P.indentOf (.ofText (u ++ v)) p = P.indentOf (.ofText (u ++ v')) p) ∧
    (p < u.size → P.LooksBack (u ++ v) (P.classify (.ofText (u ++ v)) p) →
      P.findMatch (.ofText (u ++ v)) p = P.findMatch (.ofText (u ++ v')) p) := by
  refine ⟨fun hp => ⟨?_, ?_⟩, fun hp => ⟨?_, ?_⟩, fun hp hback => ?_⟩
  · rw [context_above hm hu hp, context_above hm hu hp]
  · rw [closingText_above hm hu hp, closingText_above hm hu hp]
  · rw [indentation_above hm hu hp, indentation_above hm hu hp]
  · rw [indentOf_above hm hu hp, indentOf_above hm hu hp]
  · have hopener := LooksBack.opener hm hu hp hback
    rw [findMatch_above hm hu hp hopener, findMatch_above hm hu hp hopener]

/-- A loop and a condition with an `else if`, closed below or followed by an open string. -/
theorem answers_above_open_string :
    let P : Profile := { layout := { maxVisits := 20 } }
    let u : Text := "for i = 1 to 2\n    if a then\nelse if b then\n".toList
    let v' : Text := "\"end if".toList
    '\n' ∉ P.dialect.marker ∧ u.EndsLine ∧
      P.context (.ofText (u ++ v')) 44 = [⟨.forLoop, 0⟩, ⟨.ifBlock, 19⟩] ∧
      P.closingText (.ofText (u ++ v')) 15 = .ok "next i".toList ∧
      P.indentOf (.ofText (u ++ v')) 29 = some 1 ∧
      P.findMatch (.ofText (u ++ v')) 34 =
        some ⟨⟨.ifBlock, 19, 21, none⟩, ⟨.ifBlock, 34, 36, none⟩⟩ := by
  intro P u v'
  let v : Text := "end if\nnext i\n".toList
  have hm : '\n' ∉ P.dialect.marker := by decide
  have hu : u.EndsLine := Or.inr (by decide)
  -- one evaluation for all facts, as each one works out the table of blocks
  have hrun : P.context (.ofText (u ++ v)) 44 = [⟨.forLoop, 0⟩, ⟨.ifBlock, 19⟩] ∧
      P.closingText (.ofText (u ++ v)) 15 = .ok "next i".toList ∧
      P.indentOf (.ofText (u ++ v)) 29 = some 1 ∧
      P.findMatch (.ofText (u ++ v)) 34 =
        some ⟨⟨.ifBlock, 19, 21, none⟩, ⟨.ifBlock, 34, 36, none⟩⟩ ∧
      P.classify (.ofText (u ++ v)) 34 = ⟨.ifBlock, 34, 36, none⟩ ∧
      P.tokenize (u ++ v) = (P.tokenize (u ++ v)).take 12 ++
        ⟨.ifBlock, 34, 36, none⟩ :: (P.tokenize (u ++ v)).drop 13 ∧
      Token.continuesBetween ((P.tokenize (u ++ v)).take 12).getLast? ⟨.ifBlock, 34, 36, none⟩
        ((P.tokenize (u ++ v)).drop 13).head? := by
    decide +kernel
  obtain ⟨hcontext, hclosing, hindent, hmatch, hclass, hsplit, hcont⟩ := hrun
  have hback : P.LooksBack (u ++ v) (P.classify (.ofText (u ++ v)) 34) := by
    rw [hclass]
    exact Or.inr (Or.inr ⟨_, _, hsplit, hcont⟩)
  have habove := answers_above P hm hu v v'
  refine ⟨hm, hu, ?_, ?_, ?_, ?_⟩
  · rw [← ((habove 44).1 (by decide)).1, hcontext]
  · rw [← ((habove 15).1 (by decide)).2, hclosing]
  · rw [← ((habove 29).2.1 (by decide)).2, hindent]
  · rw [← (habove 34).2.2 (by decide) hback, hmatch]

end Profile

end BlockScript
