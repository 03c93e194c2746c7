/-
  Looking up a line, and what the tokens of a text are around it.

  A text falls apart at the start of each of its lines (`EndsLine`: what stands before is empty or ends
  in a line break).  `lineAt` finds such a place (`lineAt_split`), and for an offset inside the text there is
  only one whose line holds the offset (`line_unique`), so a line once found is found again from any
  offset it holds (`lineAt_eq_of_holds`).  The tokens of the whole text are then those before the line,
  those of the line, and those after it, each part in order within its own bounds (`tokenize_around`).
-/
import BlockScript.Proofs.TokenOrder
import BlockScript.Scanner

namespace BlockScript

/-! ## Endings -/

theorem isBlank_of_isLineEnding {c : Char} (h : Text.isLineEnding c) : isBlank c := by
  simp only [Text.isLineEnding, Bool.or_eq_true, decide_eq_true_eq] at h
  rcases h with rfl | rfl <;> decide

namespace Text

/-- A text with its ending: what is left of it without, and the characters cut off. -/
theorem trimEnd_append (p : Char → Bool) (t : Text) :
    trimEnd p t ++ (t.reverse.takeWhile p).reverse = t := by
  rw [trimEnd, ← List.reverse_append, List.takeWhile_append_dropWhile, List.reverse_reverse]

/-- The part of a text before the first of some character. -/
theorem takeWhile_ne_append {w : Text} {x : Char} (h : ∀ c ∈ w, c ≠ x) (t : Text) :
    (w ++ x :: t).takeWhile (· ≠ x) = w := by
  rw [List.takeWhile_append_of_pos (by simpa using h)]
  simp

/-! ## Where lines start -/

/-- Whether a line starts after the text: it is empty or ends in a line break. -/
def EndsLine (t : Text) : Prop := t = [] ∨ t.getLast? = some '\n'

/-- Where a line starts after a text, one starts after every end of it. -/
theorem EndsLine.right {a x : Text} (h : EndsLine (a ++ x)) : EndsLine x := by
  by_cases hx : x = []
  · exact Or.inl hx
  · have hlast : (a ++ x).getLast? = some '\n' := h.resolve_left (by simp [hx])
    rw [List.getLast?_append, List.getLast?_eq_some_getLast hx, Option.some_or,
      ← List.getLast?_eq_some_getLast hx] at hlast
    exact Or.inr hlast

/-- A text that ends in a line break holds its first line whole, whatever follows. -/
theorem exists_eq_firstLine_append {t : Text} (h : t.getLast? = some '\n') (rest : Text) :
    ∃ t', t = firstLine (t ++ rest) ++ t' ∧ EndsLine t' := by
  induction t with
  | nil => cases h
  | cons c cs ih =>
    simp only [List.cons_append, firstLine]
    by_cases hc : c = '\n'
    · refine ⟨cs, by simp [hc], ?_⟩
      cases cs with
      | nil => exact Or.inl rfl
      | cons c' cs => exact Or.inr (by rwa [List.getLast?_cons_cons] at h)
    · have hcs : cs.getLast? = some '\n' := by
        cases cs with
        | nil => exact absurd (by simpa using h) hc
        | cons c' cs => rwa [List.getLast?_cons_cons] at h
      obtain ⟨t', ht, hl⟩ := ih hcs
      exact ⟨t', by simp [hc, ← ht], hl⟩

/-- The walk for offset `p` keeps a place where a line starts. -/
theorem findLine_split (p : Nat) {t full : Text} :
    ∀ {off : Nat} {line : Nat × Text}, OnLine off line t →
      (∃ before : Text, full = before ++ line.2 ∧ before.size = line.1 ∧ EndsLine before) →
      ∃ before : Text, full = before ++ (findLine p off line t).2 ∧
        before.size = (findLine p off line t).1 ∧ EndsLine before := by
  induction t with
  | nil => intro off line _ h; exact h
  | cons c cs ih =>
    intro off line hl h
    obtain ⟨gone, hg, hs, hb⟩ := hl.ahead
    rw [findLine]
    split
    case isFalse => exact h
    case isTrue hp =>
      by_cases hc : c = '\n'
      · -- a new line starts after `c`
        rw [if_pos hc]
        obtain ⟨before, hf, hn, -⟩ := h
        refine ih ⟨[], by simp⟩ ⟨before ++ gone ++ [c], ?_, ?_, Or.inr (by simp [hc])⟩
        · simp [hf, hg]
        · simp only [size_append, size_cons, size_nil]
          omega
      · rw [if_neg hc]
        refine ih ⟨gone ++ [c], by simp [hg], by simp; omega, ?_⟩ h
        intro x hx
        rcases List.mem_append.1 hx with hx | hx
        · exact hb x hx
        · rw [List.mem_singleton.1 hx]; exact hc

/-- The line found for an offset starts where a line starts. -/
theorem lineAt_split (t : Text) (p : Nat) :
    ∃ before : Text, t = before ++ (lineAt t p).2 ∧ before.size = (lineAt t p).1 ∧ EndsLine before :=
  findLine_split p ⟨[], by simp⟩ ⟨[], by simp, rfl, Or.inl rfl⟩

/-- Of two places where a line starts, the line of the earlier one ends at or before the later one. -/
theorem size_firstLine_le {a x : Text} (hx : x ≠ []) (hl : EndsLine (a ++ x)) (rest : Text) :
    size (firstLine (x ++ rest)) ≤ size x := by
  have hlast : x.getLast? = some '\n' := hl.right.resolve_left hx
  obtain ⟨x', h, -⟩ := exists_eq_firstLine_append hlast rest
  have := congrArg size h
  rw [size_append] at this
  omega

/-- **A line is found once.**  Two places where a line starts, both lines holding the same offset, are
    one place. -/
theorem line_unique {a b a' b' : Text} (h : a ++ b = a' ++ b') (hl : EndsLine a) (hl' : EndsLine a')
    {p : Nat} (h1 : a.size ≤ p) (h2 : p < a.size + size (firstLine b))
    (h1' : a'.size ≤ p) (h2' : p < a'.size + size (firstLine b')) : a = a' ∧ b = b' := by
  rcases List.append_eq_append_iff.1 h with ⟨x, rfl, rfl⟩ | ⟨x, rfl, rfl⟩
  · by_cases hx : x = []
    · simp [hx]
    · have := size_firstLine_le hx hl' b'
      rw [size_append] at h1'
      omega
  · by_cases hx : x = []
    · simp [hx]
    · have := size_firstLine_le hx hl b
      rw [size_append] at h1
      omega

/-- A line found for one offset is found for every offset it holds. -/
theorem lineAt_eq_of_holds {t : Text} {p q : Nat} (hp : p < size t) (h1 : (lineAt t q).1 ≤ p)
    (h2 : p < (lineAt t q).1 + size (firstLine (lineAt t q).2)) : lineAt t p = lineAt t q := by
  obtain ⟨a, ha, hs, hl⟩ := lineAt_split t p
  obtain ⟨a', ha', hs', hl'⟩ := lineAt_split t q
  have hle := lineAt_start_le t p
  have hlt := lineAt_lt_stop hp
  rw [← hs] at hle hlt
  rw [← hs'] at h1 h2
  obtain ⟨rfl, hb⟩ := line_unique (ha.symm.trans ha') hl hl' hle hlt h1 h2
  exact Prod.ext (hs.symm.trans hs') hb

/-- A line that is taken off at its start is found from every offset it holds. -/
theorem lineAt_append {a t : Text} (hl : EndsLine a) {q : Nat} (h1 : a.size ≤ q)
    (h2 : q < a.size + size (firstLine t)) (h3 : q < size (a ++ t)) : lineAt (a ++ t) q = (a.size, t) := by
  obtain ⟨a', ha', hs', hl'⟩ := lineAt_split (a ++ t) q
  have hle := lineAt_start_le (a ++ t) q
  have hlt := lineAt_lt_stop h3
  rw [← hs'] at hle hlt
  obtain ⟨rfl, hb⟩ := line_unique ha' hl hl' h1 h2 hle hlt
  exact Prod.ext hs'.symm hb.symm

/-- No line reaches over the start of another. -/
theorem le_lineStart {a t : Text} (hl : EndsLine a) {q : Nat} (h1 : a.size ≤ q) (h2 : q < size (a ++ t)) :
    a.size ≤ lineStart (a ++ t) q := by
  obtain ⟨a', ha', hs', -⟩ := lineAt_split (a ++ t) q
  have hlt := lineAt_lt_stop h2
  rw [lineStart, ← hs']
  rw [← hs'] at hlt
  rcases List.append_eq_append_iff.1 ha' with ⟨x, rfl, -⟩ | ⟨x, rfl, hx⟩
  · rw [size_append]
    omega
  · by_cases hx' : x = []
    · simp [hx']
    · have := size_firstLine_le hx' hl t
      rw [hx] at hlt
      rw [size_append] at h1
      omega

/-! ## The lines of a text -/

/-- Whether `line` is a line with its break, or a line without one after which nothing follows. -/
def IsLine (line rest : Text) : Prop :=
  (∃ w : Text, (∀ c ∈ w, c ≠ '\n') ∧ line = w ++ ['\n']) ∨ (∀ c ∈ line, c ≠ '\n') ∧ rest = []

namespace IsLine

variable {line rest : Text}

theorem cons {c : Char} (hc : c ≠ '\n') (h : IsLine line rest) : IsLine (c :: line) rest := by
  rcases h with ⟨w, hw, rfl⟩ | ⟨hw, hrest⟩
  · exact .inl ⟨c :: w, by simpa [hc] using hw, rfl⟩
  · exact .inr ⟨by simpa [hc] using hw, hrest⟩

/-- A line that something follows ends in its break. -/
theorem getLast? (h : IsLine line rest) (hrest : rest ≠ []) : line.getLast? = some '\n' := by
  rcases h with ⟨w, -, rfl⟩ | ⟨-, rfl⟩
  · simp
  · exact absurd rfl hrest

/-- The first line of a text that ends in a line break is a line whatever follows it. -/
theorem of_endsLine (h : IsLine line rest) (hne : line ≠ []) (hends : EndsLine (line ++ rest))
    (rest' : Text) : IsLine line rest' := by
  rcases h with ⟨w, hw, rfl⟩ | ⟨hw, rfl⟩
  · exact .inl ⟨w, hw, rfl⟩
  · rw [List.append_nil] at hends
    have hlast := hends.resolve_left hne
    exact absurd rfl (hw '\n' (List.mem_of_getLast? hlast))

theorem firstLine (h : IsLine line rest) : firstLine (line ++ rest) = line := by
  rcases h with ⟨w, hw, rfl⟩ | ⟨hw, rfl⟩
  · rw [List.append_assoc, firstLine_append hw]
    rfl
  · rw [firstLine_append hw, Text.firstLine, List.append_nil]

theorem firstLine_eq (h : IsLine line rest) : Text.firstLine line = line := by
  have hself : IsLine line [] := h.imp_right fun hw => ⟨hw.1, rfl⟩
  simpa using hself.firstLine

end IsLine

/-- The lines of a text: its first line and those of the text after it. -/
theorem exists_isLine {t : Text} (ht : t ≠ []) :
    ∃ line rest, t = line ++ rest ∧ line ≠ [] ∧ IsLine line rest ∧ lines t = line :: lines rest := by
  induction t with
  | nil => exact absurd rfl ht
  | cons c cs ih =>
    by_cases hc : c = '\n'
    · exact ⟨['\n'], cs, by simp [hc], by simp, .inl ⟨[], by simp⟩, by simp [lines, hc]⟩
    · cases cs with
      | nil => exact ⟨[c], [], rfl, by simp, .inr ⟨by simpa using hc, rfl⟩, by simp [lines, hc]⟩
      | cons c' cs =>
        obtain ⟨line, rest, heq, -, hline, hlines⟩ := ih (by simp)
        exact ⟨c :: line, rest, by rw [heq, List.cons_append], by simp, hline.cons hc,
          by rw [lines, if_neg hc, hlines]⟩

/-- Induction over the lines of a text, from the last one back. -/
@[elab_as_elim]
theorem line_induction {motive : Text → Prop} (nil : motive [])
    (line : ∀ line rest, line ≠ [] → IsLine line rest → lines (line ++ rest) = line :: lines rest →
      motive rest → motive (line ++ rest))
    (t : Text) : motive t := by
  induction hn : t.length using Nat.strongRecOn generalizing t with
  | _ n ih =>
    by_cases ht : t = []
    · rw [ht]
      exact nil
    · obtain ⟨first, rest, rfl, hne, hfirst, hlines⟩ := exists_isLine ht
      have hshort : rest.length < n := by
        have := List.length_pos_iff.2 hne
        rw [List.length_append] at hn
        omega
      exact line first rest hne hfirst hlines (ih _ hshort rest rfl)

theorem lines_append_break {w : Text} (hw : ∀ c ∈ w, c ≠ '\n') (t : Text) :
    lines (w ++ ['\n'] ++ t) = (w ++ ['\n']) :: lines t := by
  induction w with
  | nil => simp [lines]
  | cons c w ih =>
    have hc : c ≠ '\n' := hw c (List.mem_cons_self ..)
    rw [List.cons_append, List.cons_append, lines, if_neg hc,
      ih fun x hx => hw x (List.mem_cons_of_mem _ hx)]

theorem splitAt?_size_append (a t : Text) : splitAt? (a ++ t) a.size = some (a, t) := by
  induction a with
  | nil => cases t <;> rfl
  | cons c cs ih =>
    have hpos := c.utf8Size_pos
    obtain ⟨n, hn⟩ : ∃ n, size (c :: cs) = n + 1 := ⟨size (c :: cs) - 1, by rw [size_cons]; omega⟩
    have hrest : n + 1 - c.utf8Size = size cs := by
      rw [size_cons] at hn
      omega
    rw [hn, List.cons_append, splitAt?, hrest, ih, if_pos (by rw [size_cons] at hn; omega)]
    rfl

/-- A text falls apart in one way only at an offset. -/
theorem append_inj_of_size {a b a' b' : Text} (h : a ++ b = a' ++ b') (hs : a.size = a'.size) :
    a = a' ∧ b = b' := by
  have hcut : splitAt? (a ++ b) a.size = some (a', b') := by
    rw [h, hs]
    exact splitAt?_size_append a' b'
  rw [splitAt?_size_append] at hcut
  exact Prod.mk.inj (Option.some.inj hcut)

theorem slice_size_append (a t : Text) : slice (a ++ t) a.size (size (a ++ t)) = t := by
  have hrest : splitAt? t (size (a ++ t) - a.size) = some (t, []) := by
    have := splitAt?_size_append t []
    rwa [List.append_nil, ← Nat.add_sub_cancel_left (n := a.size) (m := t.size), ← size_append] at this
  rw [slice, slice?, if_pos (by simp), splitAt?_size_append]
  simp only [hrest, Option.map_some, Option.getD_some]

/-- Where a line starts, it ends at its break or at the end of the text. -/
theorem lineEnd_append (a t : Text) :
    lineEnd (a ++ t) a.size = a.size + size (t.takeWhile (· ≠ '\n')) := by
  rw [lineEnd, slice_size_append]

/-- The break of a line is the last byte of it that lies on the line. -/
theorem IsLine.lineEnd {a line rest : Text} (h : IsLine line rest) :
    (∀ q, q < a.size + size line → q ≤ lineEnd (a ++ (line ++ rest)) a.size) ∧
      (rest ≠ [] → lineEnd (a ++ (line ++ rest)) a.size < a.size + size line) := by
  rw [lineEnd_append]
  rcases h with ⟨w, hw, rfl⟩ | ⟨hw, rfl⟩
  · have htake : (w ++ ['\n'] ++ rest).takeWhile (· ≠ '\n') = w := by
      rw [List.append_assoc]
      exact takeWhile_ne_append hw rest
    have hsize : size (w ++ ['\n']) = size w + 1 := size_append w ['\n']
    rw [htake, hsize]
    exact ⟨fun q hq => by omega, fun _ => by omega⟩
  · have htake : (line ++ []).takeWhile (· ≠ '\n') = line := by
      rw [List.takeWhile_append_of_pos (by simpa using hw)]
      simp
    rw [htake]
    exact ⟨fun q hq => by omega, fun h => absurd rfl h⟩

end Text

/-! ## The tokens around a line -/

namespace Dialect

/-- Tokens before the start of a line are in order, and those after it are those of the text there. -/
theorem tokenizeFrom_append (d : Dialect) {before : Text} (h : before.EndsLine) (rest : Text)
    (p : Nat) : ∃ pre, d.tokenizeFrom p (before ++ rest) = pre ++ d.tokenizeFrom (p + before.size) rest ∧
      Token.Laid p (p + before.size) pre := by
  -- by the number of characters before: one line is taken off at a time
  induction hn : before.length using Nat.strongRecOn generalizing before p with
  | _ n ih =>
    rcases h with rfl | h
    · exact ⟨[], rfl, Nat.le_refl p⟩
    · obtain ⟨before', hb, hl⟩ := Text.exists_eq_firstLine_append h rest
      obtain ⟨c, cs, hc⟩ : ∃ c cs, before ++ rest = c :: cs := by
        cases before with
        | nil => cases h
        | cons c cs => exact ⟨c, cs ++ rest, rfl⟩
      have hfirst : (d.pieces none (before ++ rest)).1.flatMap Piece.text =
          (before ++ rest).firstLine := d.pieces_text none _
      have hrest : (d.pieces none (before ++ rest)).2 = before' ++ rest := by
        have hall := d.pieces_append none (before ++ rest)
        rw [hfirst] at hall
        have hsplit : before ++ rest = (before ++ rest).firstLine ++ (before' ++ rest) := by
          rw [← List.append_assoc, ← hb]
        exact List.append_cancel_left (hall.trans hsplit)
      have hsize : Piece.totalSize (d.pieces none (before ++ rest)).1 + before'.size = before.size := by
        rw [Piece.totalSize, hfirst, ← Text.size_append, ← hb]
      have hshort : before'.length < n := by
        have hpos : 0 < (before ++ rest).firstLine.length := by
          rw [hc, Text.firstLine]
          split <;> simp
        have := congrArg List.length hb
        rw [List.length_append] at this
        omega
      obtain ⟨pre, hpre, hlaid⟩ := ih _ hshort hl (p + Piece.totalSize (d.pieces none (before ++ rest)).1) rfl
      rw [Nat.add_assoc, hsize] at hpre hlaid
      refine ⟨d.tokensOf (place p (d.pieces none (before ++ rest)).1) ++ pre, ?_, ?_⟩
      · rw [List.append_assoc, ← hpre, ← hrest, hc, tokenizeFrom]
      · exact (d.tokensOf_laid p none _).append hlaid

/-- The tokens of a text: those before the line that holds offset `p`, those of that line, and those
    after it. -/
theorem tokenize_around (d : Dialect) {b : Buffer} {p : Nat} (hp : p < b.size) :
    ∃ pre post, d.tokenize b.text = pre ++ ((d.lineAt b p).tokens ++ post) ∧
      Token.Laid 0 (d.lineAt b p).start pre ∧
      Token.Laid (d.lineAt b p).start (d.lineAt b p).stop (d.lineAt b p).tokens ∧
      Token.Laid (d.lineAt b p).stop b.size post := by
  obtain ⟨before, ht, hs, hl⟩ := b.text.lineAt_split p
  obtain ⟨pre, hpre, hlaid⟩ := d.tokenizeFrom_append hl (b.text.lineAt p).2 0
  rw [← ht, Nat.zero_add, hs] at hpre
  rw [Nat.zero_add, hs] at hlaid
  have hstop := d.lineAt_lt_stop hp
  -- the line is not empty, so the text from it on starts with a character
  cases hr : (b.text.lineAt p).2 with
  | nil =>
    have hle := d.lineAt_start_le b p
    simp only [lineAt, hr, pieces, Piece.totalSize, List.flatMap_nil, Text.size_nil] at hstop hle
    omega
  | cons c cs =>
    have hstart : (d.lineAt b p).start = (b.text.lineAt p).1 := rfl
    have hline : (d.lineAt b p).stop =
        (b.text.lineAt p).1 + Piece.totalSize (d.pieces none (c :: cs)).1 := by
      simp only [lineAt, hr]
    have htoks : (d.lineAt b p).tokens =
        d.tokensOf (place (b.text.lineAt p).1 (d.pieces none (c :: cs)).1) := by
      simp only [lineAt, hr]
    have hend : (d.lineAt b p).stop + (d.pieces none (c :: cs)).2.size = b.size := by
      rw [hline, Piece.totalSize, Nat.add_assoc, ← Text.size_append, d.pieces_append none (c :: cs),
        ← hr, ← hs, ← Text.size_append, ← ht, b.size_eq]
    refine ⟨pre, d.tokenizeFrom (d.lineAt b p).stop (d.pieces none (c :: cs)).2, ?_, hlaid, ?_, ?_⟩
    · rw [tokenize, hpre, hr, tokenizeFrom, htoks, hline]
    · rw [htoks, hline, hstart]
      exact d.tokensOf_laid _ none (c :: cs)
    · have := d.tokenizeFrom_laid (d.lineAt b p).stop (d.pieces none (c :: cs)).2
      rwa [hend] at this

end Dialect

end BlockScript
