/-
  The strings that are painted are the strings that are read.

  Painting looks for strings and comments character by character, on rows without their carriage returns
  at the end; reading cuts each line into pieces.  Over one piece both take the same way: a run of word
  characters or symbols holds nothing to paint (`paintLiterals_run`), a string is painted as far as the row
  goes, and after a comment there is nothing left to paint and only the break to read.  What lies behind
  the end of the row reads as blanks or a comment (`place_endsRow`).

  `Agree` says what spans and lexemes then have in common; it holds of every row (`rowAgrees`), and
  so of the text: `literals_agree_with_lexemes`, the main result here.
-/
import BlockScript.Proofs.PaintedRows
import BlockScript.Proofs.TokenSpans

namespace BlockScript

/-! ## All lexemes of a text -/

namespace Dialect

theorem lexLine_lt_stop (d : Dialect) {t : Text} {p : Nat} (h : p < t.size) :
    p < (d.lexLine t p).stop := by
  unfold lexLine
  split
  · next before rest hs =>
    obtain ⟨rfl, rfl⟩ := Text.splitAt?_append hs
    have hrest : rest ≠ [] := by
      rintro rfl
      rw [List.append_nil] at h
      omega
    have hline : (Text.firstLine rest) ≠ [] := by
      obtain ⟨c, cs, rfl⟩ := List.exists_cons_of_ne_nil hrest
      rw [Text.firstLine]
      split <;> simp
    have hpos := Text.size_pos hline
    show before.size < before.size + Piece.totalSize (d.pieces before.getLast? rest).1
    rw [Piece.totalSize, d.pieces_text]
    omega
  · rw [if_pos h]
    exact Nat.lt_succ_self p

/-- The lexemes of the line at offset `p` and of all lines after it. -/
def lexemesFrom (d : Dialect) (t : Text) (p : Nat) : List Lexeme :=
  if _h : p < t.size then (d.lexLine t p).lexemes ++ d.lexemesFrom t (d.lexLine t p).stop else []
termination_by t.size - p
decreasing_by
  have := d.lexLine_lt_stop _h
  omega

/-- The lexemes of all lines of a text. -/
def lexemes (d : Dialect) (t : Text) : List Lexeme := d.lexemesFrom t 0

end Dialect

/-- Where the row that holds offset `p` ends, carriage returns at its end left out. -/
def Text.rowEnd (t : Text) (p : Nat) : Nat :=
  (t.lineAt p).1 + size (trimRow ((t.lineAt p).2.takeWhile (· ≠ '\n')))

/-! ## Spans and lexemes that agree -/

/-- Whether spans show the strings among the lexemes, each cut at the end of its row, and leave the other
    lexemes apart from line breaks alone. -/
structure Agree (rowEnd : Lexeme → Nat) (spans : List Span) (ls : List Lexeme) : Prop where
  strings : spans.filter (·.colour = .string) =
    (ls.filter (·.kind = .string)).map fun l => ⟨.string, l.start, min l.stop (rowEnd l)⟩
  apart : ∀ l ∈ ls, l.kind ≠ .string → l.kind ≠ .newline → ∀ s ∈ spans, l.stop ≤ s.start ∨ s.stop ≤ l.start

namespace Agree

variable {rowEnd rowEnd' : Lexeme → Nat} {spans spans' : List Span} {ls ls' : List Lexeme} {l : Lexeme}

/-- Where no string is painted, nothing but line breaks may be read. -/
theorem of_breaks (hspans : ∀ s ∈ spans, s.colour ≠ .string) (hls : ∀ l ∈ ls, l.kind = .newline) :
    Agree rowEnd spans ls := by
  refine ⟨?_, fun l hl _ hbreak => absurd (hls l hl) hbreak⟩
  have hnone : ls.filter (·.kind = .string) = [] :=
    List.filter_eq_nil_iff.2 fun l hl => by simp [hls l hl]
  rw [hnone, List.map_nil, List.filter_eq_nil_iff]
  intro s hs
  simpa using hspans s hs

theorem congr_rowEnd (h : Agree rowEnd spans ls) (heq : ∀ l ∈ ls, rowEnd l = rowEnd' l) :
    Agree rowEnd' spans ls := by
  refine ⟨?_, h.apart⟩
  rw [h.strings]
  refine List.map_congr_left fun l hl => ?_
  rw [heq l (List.mem_filter.1 hl).1]

/-- A lexeme that is no string, in front of all that is painted. -/
theorem cons_other (h : Agree rowEnd spans ls) (hk : l.kind ≠ .string)
    (hl : ∀ s ∈ spans, l.stop ≤ s.start) : Agree rowEnd spans (l :: ls) := by
  refine ⟨?_, ?_⟩
  · rw [List.filter_cons_of_neg (by simpa using hk)]
    exact h.strings
  · intro x hx hstring hbreak s hs
    rcases List.mem_cons.1 hx with rfl | hx
    · exact Or.inl (hl s hs)
    · exact h.apart x hx hstring hbreak s hs

/-- A string, in front of all else that is painted or read. -/
theorem cons_string (h : Agree rowEnd spans ls) (hk : l.kind = .string) {stop : Nat}
    (hstop : min l.stop (rowEnd l) = stop) (hl : ∀ x ∈ ls, l.stop ≤ x.start) :
    Agree rowEnd (⟨.string, l.start, stop⟩ :: spans) (l :: ls) := by
  refine ⟨?_, ?_⟩
  · rw [List.filter_cons_of_pos (by simp), List.filter_cons_of_pos (by simpa using hk), List.map_cons, hstop,
      h.strings]
  · intro x hx hstring hbreak s hs
    rcases List.mem_cons.1 hx with rfl | hx
    · exact absurd hk hstring
    · rcases List.mem_cons.1 hs with rfl | hs
      · have := hl x hx
        right
        show stop ≤ x.start
        omega
      · exact h.apart x hx hstring hbreak s hs

/-- What stands before an offset and what stands after it. -/
theorem append {p : Nat} (h : Agree rowEnd spans ls) (h' : Agree rowEnd spans' ls')
    (hspans : ∀ s ∈ spans, s.stop ≤ p) (hls : ∀ l ∈ ls, l.stop ≤ p)
    (hspans' : ∀ s ∈ spans', p ≤ s.start) (hls' : ∀ l ∈ ls', p ≤ l.start) :
    Agree rowEnd (spans ++ spans') (ls ++ ls') := by
  refine ⟨?_, ?_⟩
  · rw [List.filter_append, List.filter_append, List.map_append, h.strings, h'.strings]
  · intro l hl hstring hbreak s hs
    rcases List.mem_append.1 hl with hl | hl <;> rcases List.mem_append.1 hs with hs | hs
    · exact h.apart l hl hstring hbreak s hs
    · exact Or.inl (Nat.le_trans (hls l hl) (hspans' s hs))
    · exact Or.inr (Nat.le_trans (hspans s hs) (hls' l hl))
    · exact h'.apart l hl hstring hbreak s hs

end Agree

/-! ## One line -/

namespace Dialect

variable {d : Dialect}

theorem paintLiterals_zero (before : Option Char) (p : Nat) (t : Text) :
    d.paintLiterals before p 0 t = [] := by
  cases t with
  | nil => rw [paintLiterals]
  | cons c cs => rw [paintLiterals, if_pos rfl]

theorem paintLiterals_comment {before : Option Char} {c : Char} {cs : Text}
    (h : d.classHere before (c :: cs) = .comment) (p n : Nat) :
    d.paintLiterals before p (n + 1) (c :: cs) =
      [⟨.comment, p, p + Text.size ((c :: cs).take (n + 1))⟩] := by
  rw [paintLiterals, if_neg (Nat.succ_ne_zero n), h]

theorem paintLiterals_quote {before : Option Char} {c : Char} {cs : Text}
    (h : d.classHere before (c :: cs) = .quote) (p n : Nat) {m : Nat}
    (hm : m = min (stringRest c cs + 1) (n + 1)) :
    d.paintLiterals before p (n + 1) (c :: cs) =
      ⟨.string, p, p + Text.size ((c :: cs).take m)⟩ ::
        d.paintLiterals ((c :: cs).take m).getLast? (p + Text.size ((c :: cs).take m)) (n + 1 - m)
          ((c :: cs).drop m) := by
  rw [paintLiterals, if_neg (Nat.succ_ne_zero n), h, hm]

/-- A character that opens neither a comment nor a string is passed over. -/
theorem paintLiterals_cons {before : Option Char} {c : Char} {cs : Text}
    (h1 : d.classHere before (c :: cs) ≠ .comment) (h2 : d.classHere before (c :: cs) ≠ .quote) (p n : Nat) :
    d.paintLiterals before p (n + 1) (c :: cs) = d.paintLiterals (some c) (p + c.utf8Size) n cs := by
  rw [paintLiterals, if_neg (Nat.succ_ne_zero n)]
  cases hk : d.classHere before (c :: cs) <;> simp_all

/-- Characters of one class are passed over, unless they open comments or strings. -/
theorem paintLiterals_run {k : CharClass} (h1 : k ≠ .comment) (h2 : k ≠ .quote) (before : Char) (p n : Nat)
    (t : Text) {r : Nat} (hr : r ≤ d.run k before t) (hn : r ≤ n) :
    d.paintLiterals (some before) p n t =
      d.paintLiterals (before :: t.take r).getLast? (p + Text.size (t.take r)) (n - r) (t.drop r) := by
  induction r generalizing before p n t with
  | zero => rfl
  | succ r ih =>
    cases t with
    | nil => exact absurd hr (Nat.not_succ_le_zero r)
    | cons c cs =>
      have hc : d.classHere (some before) (c :: cs) = k := by
        by_contra hc
        rw [run, if_neg hc] at hr
        omega
      rw [run, if_pos hc] at hr
      obtain ⟨n, rfl⟩ : ∃ m, n = m + 1 := ⟨n - 1, by omega⟩
      rw [paintLiterals_cons (hc ▸ h1) (hc ▸ h2), ih c _ n cs (by omega) (by omega), List.take_succ_cons,
        List.drop_succ_cons, List.getLast?_cons_cons, Text.size_cons, Nat.add_sub_add_right, Nat.add_assoc]

end Dialect

/-! ### Behind the end of a row -/

/-- Whether a row ends before the text: carriage returns may follow it, and then a break or nothing. -/
inductive Text.EndsRow : Text → Prop
  | nil : EndsRow []
  | newline (rest : Text) : EndsRow ('\n' :: rest)
  | carriageReturn {rest : Text} : EndsRow rest → EndsRow ('\r' :: rest)

namespace Text.EndsRow

theorem of_append {ending after : Text} (hending : ∀ c ∈ ending, c = '\r')
    (hafter : after = [] ∨ after.head? = some '\n') : EndsRow (ending ++ after) := by
  induction ending with
  | nil =>
    rcases hafter with rfl | hafter
    · exact .nil
    · obtain ⟨rest, rfl⟩ := List.head?_eq_some_iff.1 hafter
      exact .newline rest
  | cons c ending ih =>
    obtain rfl := hending c (List.mem_cons_self ..)
    exact .carriageReturn (ih fun x hx => hending x (List.mem_cons_of_mem _ hx))

/-- Characters that are no breaks may be taken off. -/
theorem drop {t : Text} (h : EndsRow t) {m : Nat} (hm : ∀ c ∈ t.take m, c ≠ '\n') : EndsRow (t.drop m) := by
  induction h generalizing m with
  | nil =>
    rw [List.drop_nil]
    exact .nil
  | newline rest =>
    cases m with
    | zero => exact .newline rest
    | succ m => exact absurd rfl (hm '\n' (by simp))
  | @carriageReturn rest hrest ih =>
    cases m with
    | zero => exact .carriageReturn hrest
    | succ m => exact ih fun c hc => hm c (by simp [hc])

/-- Characters that are no breaks may be taken off, those of the row included. -/
theorem drop_append {row t : Text} (h : EndsRow t) {m : Nat} (hlen : row.length ≤ m)
    (hm : ∀ c ∈ (row ++ t).take m, c ≠ '\n') : EndsRow ((row ++ t).drop m) := by
  rw [List.drop_append, List.drop_eq_nil_of_le hlen, List.nil_append]
  refine h.drop fun c hc => hm c ?_
  rw [List.take_append]
  exact List.mem_append_right _ hc

end Text.EndsRow

namespace Dialect

variable {d : Dialect} {tail : Text}

/-- A run of word characters or of symbols does not reach over the end of its row. -/
theorem run_le_length {k : CharClass} (h1 : k ≠ .comment) (h2 : k ≠ .blank) (h3 : k ≠ .newline)
    (before : Char) (row : Text) (htail : tail.EndsRow) : d.run k before (row ++ tail) ≤ row.length := by
  induction row generalizing before with
  | nil =>
    cases htail with
    | nil => exact Nat.le_refl 0
    | newline rest =>
      have hne : d.classHere (some before) ('\n' :: rest) ≠ k := fun hk => h3 (of_eq_of_classHere hk h1).symm
      rw [List.nil_append, run, if_neg hne]
      exact Nat.le_refl 0
    | @carriageReturn rest hrest =>
      have hne : d.classHere (some before) ('\r' :: rest) ≠ k := fun hk => h2 (of_eq_of_classHere hk h1).symm
      rw [List.nil_append, run, if_neg hne]
      exact Nat.le_refl 0
  | cons c row ih =>
    rw [List.cons_append, run]
    split
    · exact Nat.succ_le_succ (ih c)
    · exact Nat.zero_le _

theorem pieces_newline (hm : d.marker.head? ≠ some '\n') (before : Option Char) (rest : Text) :
    d.pieces before ('\n' :: rest) = ([⟨.newline, ['\n']⟩], rest) := by
  have hk : d.classHere before ('\n' :: rest) = .newline := by
    refine (d.classHere_newline before rest).resolve_right fun hc => ?_
    refine cut_ne_zero hm before '\n' rest ?_
    rw [cut, hc]
    rfl
  have hcut : d.cut before '\n' rest = (.newline, 1) := by rw [cut, hk]
  rw [pieces_cons, hcut, if_pos (Or.inl rfl)]

/-- The lexemes of a line are that of its first piece and those of the rest. -/
theorem place_pieces_cons {before : Option Char} {c : Char} {cs : Text} {k : PieceKind} {m : Nat}
    (hcut : d.cut before c cs = (k, m)) (hk : k ≠ .newline) (hm : m ≠ 0) (p : Nat) :
    place p (d.pieces before (c :: cs)).1 =
      (k.lexeme?.map (⟨·, p, (c :: cs).take m⟩)).toList ++
        place (p + Text.size ((c :: cs).take m))
          (d.pieces ((c :: cs).take m).getLast? ((c :: cs).drop m)).1 := by
  rw [pieces_cons, hcut, if_neg (by simp [hk, hm]), place_cons]

/-- **Behind the end of a row only its break is read.** -/
theorem place_endsRow (hm : d.marker.head? ≠ some '\n') (htail : tail.EndsRow) (before : Option Char)
    (p : Nat) :
    ∀ l ∈ place p (d.pieces before tail).1, l.kind = .newline := by
  induction hn : tail.length using Nat.strongRecOn generalizing tail before p with
  | _ n ih =>
    have hends := htail
    cases htail with
    | nil =>
      rw [pieces]
      simp [place]
    | newline rest =>
      rw [pieces_newline hm]
      simp [place, PieceKind.lexeme?]
    | @carriageReturn rest hrest =>
      -- it is a blank, or it opens a comment, which takes the rest of the line
      have hclass : d.classHere before ('\r' :: rest) = .blank ∨
          d.classHere before ('\r' :: rest) = .comment := by
        rw [classHere]
        split
        · exact Or.inr rfl
        · exact Or.inl rfl
      obtain ⟨k, m, hcut, hk⟩ : ∃ k m, d.cut before '\r' rest = (k, m) ∧ (k = .blank ∨ k = .comment) := by
        rcases hclass with hclass | hclass
        · exact ⟨.blank, 1, by rw [cut, hclass], Or.inl rfl⟩
        · exact ⟨.comment, _, by rw [cut, hclass], Or.inr rfl⟩
      have hnewline : k ≠ .newline := by rcases hk with rfl | rfl <;> simp
      have hnone : k.lexeme? = none := by rcases hk with rfl | rfl <;> rfl
      have hm0 := cut_ne_zero hm before '\r' rest
      have hbreak := d.cut_noBreak before '\r' rest
      rw [hcut] at hm0 hbreak
      rw [place_pieces_cons hcut hnewline hm0, hnone, Option.map_none, Option.toList_none, List.nil_append]
      refine ih _ ?_ (hends.drop (hbreak hnewline)) _ _ rfl
      simp only [List.length_drop, List.length_cons] at hn ⊢
      omega

/-! ### Piece by piece -/

/-- Whether the strings painted on a row at offset `p`, whatever stands before it, are those read there. -/
def RowAgrees (d : Dialect) (row tail : Text) : Prop :=
  ∀ (before : Option Char) (p : Nat), Agree (fun _ => p + row.size)
    (d.paintLiterals before p row.length (row ++ tail)) (place p (d.pieces before (row ++ tail)).1)

variable {before : Option Char} {p : Nat} {c : Char} {cs : Text}

/-- The part of a row behind its first `r + 1` characters. -/
theorem RowAgrees.behind {r : Nat} (h : d.RowAgrees (cs.drop r) tail) (before : Option Char) (p : Nat) :
    Agree (fun _ => p + Text.size (c :: cs))
      (d.paintLiterals before (p + Text.size (c :: cs.take r)) (cs.length - r) (cs.drop r ++ tail))
      (place (p + Text.size (c :: cs.take r)) (d.pieces before (cs.drop r ++ tail)).1) := by
  have hsize : p + Text.size (c :: cs.take r) + Text.size (cs.drop r) = p + Text.size (c :: cs) := by
    rw [Nat.add_assoc, ← Text.size_append, List.cons_append, List.take_append_drop]
  have hbehind := h before (p + Text.size (c :: cs.take r))
  rwa [hsize, List.length_drop] at hbehind

/-- A first piece that holds nothing to paint. -/
theorem agree_pass {kind : PieceKind} {r : Nat} {k : CharClass}
    (hcut : d.cut before c (cs ++ tail) = (kind, r + 1)) (hbreak : kind ≠ .newline)
    (hstring : kind.lexeme? ≠ some .string)
    (hclass : d.classHere before (c :: (cs ++ tail)) = k) (h1 : k ≠ .comment) (h2 : k ≠ .quote)
    (hr : r ≤ d.run k c (cs ++ tail)) (hrow : r ≤ cs.length) (ih : d.RowAgrees (cs.drop r) tail) :
    Agree (fun _ => p + Text.size (c :: cs)) (d.paintLiterals before p (c :: cs).length (c :: cs ++ tail))
      (place p (d.pieces before (c :: cs ++ tail)).1) := by
  have hpaint : d.paintLiterals before p (c :: cs).length (c :: cs ++ tail) =
      d.paintLiterals (c :: cs.take r).getLast? (p + Text.size (c :: cs.take r)) (cs.length - r)
        (cs.drop r ++ tail) := by
    rw [List.cons_append, List.length_cons, paintLiterals_cons (hclass ▸ h1) (hclass ▸ h2),
      paintLiterals_run h1 h2 c _ _ _ hr hrow, List.take_append_of_le_length hrow,
      List.drop_append_of_le_length hrow, Text.size_cons, Nat.add_assoc]
  rw [hpaint, List.cons_append, place_pieces_cons hcut hbreak (Nat.succ_ne_zero r), List.take_succ_cons,
    List.drop_succ_cons, List.take_append_of_le_length hrow, List.drop_append_of_le_length hrow]
  have hbehind := ih.behind (c := c) (c :: cs.take r).getLast? p
  cases hlex : kind.lexeme? with
  | none => exact hbehind
  | some l =>
    refine hbehind.cons_other (fun hl => hstring (hlex.trans (congrArg some hl))) fun s hs => ?_
    exact (d.paintLiterals_inside _ _ _ _ s hs).le_start

/-- A comment takes the rest of the row. -/
theorem agree_comment (hm : d.marker.head? ≠ some '\n') (htail : tail.EndsRow)
    (hrow : ∀ x ∈ c :: cs, x ≠ '\n')
    (hclass : d.classHere before (c :: (cs ++ tail)) = .comment) :
    Agree (fun _ => p + Text.size (c :: cs)) (d.paintLiterals before p (c :: cs).length (c :: cs ++ tail))
      (place p (d.pieces before (c :: cs ++ tail)).1) := by
  have hcut : d.cut before c (cs ++ tail) =
      (.comment, ((c :: (cs ++ tail)).takeWhile (· ≠ '\n')).length) := by rw [cut, hclass]
  have hm0 := cut_ne_zero hm before c (cs ++ tail)
  have hbreak := d.cut_noBreak before c (cs ++ tail)
  rw [hcut] at hm0 hbreak
  rw [List.cons_append, place_pieces_cons hcut (by simp) hm0, List.length_cons, paintLiterals_comment hclass]
  refine .of_breaks (by simp) (place_endsRow hm ?_ _ _)
  have hlen : (c :: cs).length ≤ ((c :: cs ++ tail).takeWhile (· ≠ '\n')).length := by
    rw [List.takeWhile_append_of_pos (by simpa using hrow), List.length_append]
    exact Nat.le_add_right ..
  exact htail.drop_append hlen (hbreak (by simp))

/-- A string is painted as far as the row goes. -/
theorem agree_string (hm : d.marker.head? ≠ some '\n') (htail : tail.EndsRow)
    (hclass : d.classHere before (c :: (cs ++ tail)) = .quote)
    (ih : ∀ r, d.RowAgrees (cs.drop r) tail) :
    Agree (fun _ => p + Text.size (c :: cs)) (d.paintLiterals before p (c :: cs).length (c :: cs ++ tail))
      (place p (d.pieces before (c :: cs ++ tail)).1) := by
  have hcut : d.cut before c (cs ++ tail) = (.string, stringRest c (cs ++ tail) + 1) := by rw [cut, hclass]
  have hbreak := d.cut_noBreak before c (cs ++ tail)
  rw [hcut] at hbreak
  rw [List.cons_append, List.length_cons, place_pieces_cons hcut (by simp) (Nat.succ_ne_zero _)]
  have hafter : ∀ before q t, ∀ l ∈ place q (d.pieces before t).1, q ≤ l.start :=
    fun before q t l hl => ((place_laid q (d.pieces_ne_nil before t)).bounds hl).1
  by_cases hin : stringRest c (cs ++ tail) ≤ cs.length
  · -- it ends on the row, and both go on behind it
    rw [paintLiterals_quote hclass p cs.length (Nat.min_eq_left (Nat.succ_le_succ hin)).symm,
      List.take_succ_cons,
      List.drop_succ_cons, List.take_append_of_le_length hin, List.drop_append_of_le_length hin,
      Nat.add_sub_add_right]
    generalize stringRest c (cs ++ tail) = r
    have hsize : Text.size (c :: cs.take r) ≤ Text.size (c :: cs) := Text.size_take_le (c :: cs) (r + 1)
    refine Agree.cons_string (l := ⟨.string, p, c :: cs.take r⟩) ((ih r).behind _ p) rfl ?_ (hafter _ _ _)
    exact Nat.min_eq_left (Nat.add_le_add_left hsize p)
  · -- the row ends before it does
    have hlen : (c :: cs).length ≤ stringRest c (cs ++ tail) + 1 := by
      rw [List.length_cons]
      omega
    have hrow : (c :: (cs ++ tail)).take (c :: cs).length = c :: cs := List.take_left
    rw [paintLiterals_quote hclass p cs.length (Nat.min_eq_right hlen).symm, List.length_cons, Nat.sub_self,
      paintLiterals_zero, ← List.length_cons, hrow]
    generalize stringRest c (cs ++ tail) + 1 = m at hbreak hlen ⊢
    have hsize : Text.size (c :: cs) ≤ Text.size ((c :: (cs ++ tail)).take m) := by
      rw [← List.cons_append, List.take_append, List.take_of_length_le hlen, Text.size_append]
      exact Nat.le_add_right ..
    refine Agree.cons_string (l := ⟨.string, p, (c :: (cs ++ tail)).take m⟩) ?_ rfl ?_ (hafter _ _ _)
    · exact .of_breaks (by simp) (place_endsRow hm (htail.drop_append hlen (hbreak (by simp))) _ _)
    · exact Nat.min_eq_right (Nat.add_le_add_left hsize p)

/-- **On one row the strings painted are those read.** -/
theorem rowAgrees (hm : d.marker.head? ≠ some '\n') (htail : tail.EndsRow) (row : Text)
    (hrow : ∀ c ∈ row, c ≠ '\n') : d.RowAgrees row tail := by
  induction hn : row.length using Nat.strongRecOn generalizing row with
  | _ n ih =>
    intro before p
    cases row with
    | nil =>
      rw [List.length_nil, paintLiterals_zero]
      exact .of_breaks (by simp) (place_endsRow hm htail before p)
    | cons c cs =>
      have hcs : ∀ x ∈ cs, x ≠ '\n' := fun x hx => hrow x (List.mem_cons_of_mem _ hx)
      have hrest : ∀ r, d.RowAgrees (cs.drop r) tail := by
        intro r
        refine ih _ ?_ _ (fun x hx => hcs x (List.mem_of_mem_drop hx)) rfl
        rw [← hn, List.length_drop, List.length_cons]
        omega
      cases hclass : d.classHere before (c :: (cs ++ tail)) with
      | newline =>
        refine absurd ?_ (hrow c (List.mem_cons_self ..))
        exact CharClass.eq_newline_of_of (of_eq_of_classHere hclass (by simp))
      | comment => exact agree_comment hm htail hrow hclass
      | quote => exact agree_string hm htail hclass hrest
      | blank =>
        have hcut : d.cut before c (cs ++ tail) = (.blank, 1) := by rw [cut, hclass]
        exact agree_pass hcut (by simp) (by simp [PieceKind.lexeme?]) hclass (by simp) (by simp)
          (Nat.zero_le _) (Nat.zero_le _) (hrest 0)
      | separator =>
        have hcut : d.cut before c (cs ++ tail) = (.semicolon, 1) := by rw [cut, hclass]
        exact agree_pass hcut (by simp) (by simp [PieceKind.lexeme?]) hclass (by simp) (by simp)
          (Nat.zero_le _) (Nat.zero_le _) (hrest 0)
      | word =>
        have hcut : d.cut before c (cs ++ tail) = (.word, d.run .word c (cs ++ tail) + 1) := by
          rw [cut, hclass]
        exact agree_pass hcut (by simp) (by simp [PieceKind.lexeme?]) hclass (by simp) (by simp)
          (Nat.le_refl _) (run_le_length (by simp) (by simp) (by simp) c cs htail) (hrest _)
      | symbol =>
        by_cases hequals : c = '=' && (cs ++ tail).head? ≠ some '='
        · have hcut : d.cut before c (cs ++ tail) = (.equals, 1) := by
            rw [cut, hclass]
            exact if_pos hequals
          exact agree_pass hcut (by simp) (by simp [PieceKind.lexeme?]) hclass (by simp) (by simp)
            (Nat.zero_le _) (Nat.zero_le _) (hrest 0)
        · have hcut : d.cut before c (cs ++ tail) = (.symbol, d.run .symbol c (cs ++ tail) + 1) := by
            rw [cut, hclass]
            exact if_neg hequals
          exact agree_pass hcut (by simp) (by simp [PieceKind.lexeme?]) hclass (by simp) (by simp)
            (Nat.le_refl _) (run_le_length (by simp) (by simp) (by simp) c cs htail) (hrest _)

end Dialect

/-! ## The whole text -/

namespace Dialect

/-- The lexemes of a line stand in order on it. -/
theorem lexLine_laid (d : Dialect) {t : Text} {p : Nat} (h : p < t.size) :
    Lexeme.Laid p (d.lexLine t p).stop (d.lexLine t p).lexemes := by
  unfold lexLine
  split
  · exact place_laid p (d.pieces_ne_nil _ _)
  · rw [if_pos h]
    exact ⟨Nat.le_refl p, Nat.lt_succ_self p, Nat.le_refl _⟩

theorem le_start_of_mem_lexemesFrom {d : Dialect} {t : Text} {p : Nat} {l : Lexeme}
    (hl : l ∈ d.lexemesFrom t p) : p ≤ l.start := by
  fun_induction lexemesFrom d t p with
  | case1 p hp ih =>
    rcases List.mem_append.1 hl with hl | hl
    · exact ((d.lexLine_laid hp).bounds hl).1
    · exact Nat.le_trans (Nat.le_of_lt (d.lexLine_lt_stop hp)) (ih hl)
  | case2 => cases hl

theorem lexLine_stop (d : Dialect) (before : Text) {line rest : Text} (hline : Text.IsLine line rest) :
    (d.lexLine (before ++ (line ++ rest)) before.size).stop = Text.size (before ++ line) := by
  rw [lexLine, Text.splitAt?_size_append]
  show before.size + Piece.totalSize _ = _
  rw [Piece.totalSize, d.pieces_text, hline.firstLine, Text.size_append]

end Dialect

theorem Text.rowEnd_eq {before line rest : Text} (hl : before.EndsLine) (hline : IsLine line rest) {p : Nat}
    (h1 : before.size ≤ p) (h2 : p < before.size + line.size) :
    rowEnd (before ++ (line ++ rest)) p = before.size + size (trimRow (line.takeWhile (· ≠ '\n'))) := by
  have h3 : p < size (before ++ (line ++ rest)) := by
    simp only [size_append]
    omega
  have hrow : (line ++ rest).takeWhile (· ≠ '\n') = line.takeWhile (· ≠ '\n') := by
    rcases hline with ⟨w, hw, rfl⟩ | ⟨hw, rfl⟩
    · rw [List.append_assoc, List.singleton_append, Dialect.takeWhile_break,
        Dialect.takeWhile_break]
    · rw [List.append_nil]
  rw [← hline.firstLine] at h2
  rw [rowEnd, lineAt_append hl h1 h2 h3, hrow]

namespace Painter

variable {P : Painter} {before : Text}

/-- What is painted on a line and what is read there. -/
theorem literalsOfRow_agree (hm : P.dialect.marker.head? ≠ some '\n') (before : Text) {row after : Text}
    (hrow : ∀ c ∈ row, c ≠ '\n') (hafter : after = [] ∨ after.head? = some '\n') :
    Agree (fun _ => before.size + Text.size (Text.trimRow row))
      (P.literalsOfRow (before ++ (row ++ after)) before.size (Text.trimRow row))
      (P.dialect.lexLine (before ++ (row ++ after)) before.size).lexemes := by
  obtain ⟨ending, hsplit, hending⟩ := Text.trimRow_append row
  have htrim : ∀ c ∈ Text.trimRow row, c ≠ '\n' := by
    intro c hc
    refine hrow c ?_
    rw [hsplit]
    exact List.mem_append_left _ hc
  have hagree := Dialect.rowAgrees hm (.of_append hending hafter) (Text.trimRow row) htrim
    before.getLast? before.size
  rw [← List.append_assoc, ← hsplit] at hagree
  rw [literalsOfRow, Dialect.lexLine, Text.splitAt?_size_append]
  exact hagree

theorem le_start_of_mem_literals (hl : before.EndsLine) {t : Text} {s : Span}
    (hs : s ∈ P.literals (before ++ t) (t.rowsFrom before.size)) : before.size ≤ s.start := by
  obtain ⟨r, hr, -, hinside⟩ := literals_inside (fun r hr => Text.rowAt_of_mem_rowsFrom hl hr) hs
  exact Nat.le_trans (Text.le_of_mem_rowsFrom hr) hinside.le_start

/-- **From the start of a line on the strings painted are those read.** -/
theorem literals_agree (hm : P.dialect.marker.head? ≠ some '\n') (hl : before.EndsLine) (t : Text) :
    Agree (fun l => (before ++ t : Text).rowEnd l.start) (P.literals (before ++ t) (t.rowsFrom before.size))
      (P.dialect.lexemesFrom (before ++ t) before.size) := by
  induction t using Text.line_induction generalizing before with
  | nil =>
    have hnone : P.literals (before ++ []) (Text.rowsFrom before.size []) = [] := by
      show P.literalsOfRow (before ++ []) before.size [] ++ [] = []
      rw [literalsOfRow, Text.splitAt?_size_append, List.append_nil]
      exact Dialect.paintLiterals_zero ..
    rw [hnone, Dialect.lexemesFrom, dif_neg (by simp)]
    exact .of_breaks (by simp) (by simp)
  | line line rest hne hline hlines ih =>
    have hpos := Text.size_pos hne
    have hp : before.size < Text.size (before ++ (line ++ rest)) := by
      simp only [Text.size_append]
      omega
    have hlaid := P.dialect.lexLine_laid hp
    have hstop := P.dialect.lexLine_stop before hline
    rw [hstop] at hlaid
    rw [Dialect.lexemesFrom, dif_pos hp, hstop]
    -- whatever the row of the line is, it is painted as it is read
    have hhere : ∀ row after : Text, line ++ rest = row ++ after → (∀ c ∈ row, c ≠ '\n') →
        (after = [] ∨ after.head? = some '\n') → line.takeWhile (· ≠ '\n') = row →
        Agree (fun l => (before ++ (line ++ rest) : Text).rowEnd l.start)
          (P.literalsOfRow (before ++ (line ++ rest)) before.size (Text.trimRow row))
          (P.dialect.lexLine (before ++ (line ++ rest)) before.size).lexemes := by
      intro row after hsplit hrow hafter htake
      have hagree := literalsOfRow_agree hm before hrow hafter
      rw [← hsplit] at hagree
      refine hagree.congr_rowEnd fun l hmem => ?_
      have hbounds := hlaid.bounds hmem
      rw [Text.size_append] at hbounds
      rw [Text.rowEnd_eq hl hline (by omega) (by omega), htake]
    rcases hline with ⟨w, hw, rfl⟩ | ⟨hw, rfl⟩
    · have hrow : (w ++ ['\n']).takeWhile (· ≠ '\n') = w := Text.takeWhile_ne_append hw []
      have hfirst := hhere w ('\n' :: rest) (by simp) hw (Or.inr rfl) hrow
      have hends : (before ++ (w ++ ['\n']) : Text).EndsLine := Or.inr (by simp)
      have hlater := ih hends
      have hstart : ∀ s ∈ P.literals _ _, _ := fun s => le_start_of_mem_literals hends (t := rest)
      rw [List.append_assoc] at hlater hstart
      rw [Text.rowsFrom_break hw, ← Text.size_append]
      refine hfirst.append hlater (fun s hs => ?_) (fun l hmem => (hlaid.bounds hmem).2.2) hstart
        fun l hmem => Dialect.le_start_of_mem_lexemesFrom hmem
      have hinside := P.literalsOfRow_inside ⟨before, '\n' :: rest, by simp, rfl, hl, hw, Or.inr rfl⟩ s hs
      have hle := hinside.stop_le
      simp only [Text.size_append]
      omega
    · have hrow : line.takeWhile (· ≠ '\n') = line := by
        rw [← List.append_nil line, List.takeWhile_append_of_pos (by simpa using hw)]
        rfl
      have hfirst := hhere line [] rfl hw (Or.inl rfl) hrow
      rw [List.append_nil] at hfirst ⊢
      rw [Text.rowsFrom_noBreak hw, Dialect.lexemesFrom, dif_neg (Nat.lt_irrefl _), List.append_nil]
      have hone : P.literals (before ++ line) [(before.size, line)] =
          P.literalsOfRow (before ++ line) before.size (Text.trimRow line) := List.append_nil _
      rw [hone]
      exact hfirst

end Painter

/-- **The strings that are painted are the strings that are read**, and nothing else that is read has
    anything in common with a painted string or comment. -/
theorem Painter.literals_agree_with_lexemes (P : Painter) (t : Text)
    (hm : P.dialect.marker.head? ≠ some '\n') :
    let painted := (t.rowsIn 0 t.size).flatMap fun (p, row) => P.literalsOfRow t p row
    painted.filter (·.colour = .string) = ((P.dialect.lexemes t).filter (·.kind = .string)).map
        (fun l => ⟨.string, l.start, min l.stop (t.rowEnd l.start)⟩) ∧
      ∀ l ∈ P.dialect.lexemes t, l.kind ≠ .string → l.kind ≠ .newline →
        ∀ s ∈ painted, l.stop ≤ s.start ∨ s.stop ≤ l.start := by
  intro painted
  have hpainted : painted = P.literals t (t.rowsFrom 0) := by
    show (t.rowsIn 0 t.size).flatMap _ = _
    rw [Text.rowsIn_all, List.flatMap_map]
    rfl
  have hstart : Text.EndsLine [] := Or.inl rfl
  have hagree := literals_agree hm hstart t
  rw [hpainted]
  exact ⟨hagree.strings, hagree.apart⟩

/-- A string left open at a carriage return, and one with a doubled quote before a comment. -/
theorem Painter.literals_agree_with_lexemes_open_string :
    let P : Painter := ⟨{ marker := "rem".toList }, []⟩
    let t : Text := "'é\r\n\"a\"\"b\" rem \"c\"\n".toList
    let painted := (t.rowsIn 0 t.size).flatMap fun (p, row) => P.literalsOfRow t p row
    P.dialect.marker.head? ≠ some '\n' ∧
      painted = [⟨.string, 0, 3⟩, ⟨.string, 5, 11⟩, ⟨.comment, 12, 19⟩] ∧
      ((P.dialect.lexemes t).map fun l => (l.kind, l.start, l.stop)) =
        [(.string, 0, 4), (.newline, 4, 5), (.string, 5, 11), (.newline, 19, 20)] ∧
      painted.filter (·.colour = .string) = ((P.dialect.lexemes t).filter (·.kind = .string)).map
        (fun l => ⟨.string, l.start, min l.stop (t.rowEnd l.start)⟩) := by
  intro P t painted
  have hm : P.dialect.marker.head? ≠ some '\n' := by decide
  have hagree := literals_agree_with_lexemes P t hm
  exact ⟨hm, by decide +kernel, by decide +kernel, hagree.1⟩

end BlockScript
