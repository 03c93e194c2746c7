/-
  Comments are invisible to tokens.

  `uncommented` is a text with the comment of each of its lines deleted.  What stands before a comment then
  has the end of its line behind it, where the comment was, and everything that looks ahead must see the
  same there:

  1. No comment opens in front of the deleted one that did not open before (`opensComment_of_front`).  A
     marker that is a word could only fail to open for the sake of the comment behind it, and that comment
     does not open behind a word.
  2. Words and symbols end at a comment as they end with the line (`run_front`), a string has its closing
     quote or takes the comment in (`stringRest_front`), and a `=` before a comment is alone unless the
     marker starts with `=`.
  3. So a line is cut into the same pieces up to its comment (`exists_comment`), and these are the pieces of
     the line without it.

  The main result is `readings_uncommented`: kinds, texts and names of tokens stay.
-/
import BlockScript.Proofs.LexerTurns
import BlockScript.Proofs.LineLocality
import BlockScript.Proofs.RenamedLine
import Mathlib.Data.List.TakeWhile

namespace BlockScript

namespace Dialect

variable {d : Dialect} {before : Option Char} {z u : Text}

/-! ## Without comments -/

/-- A line without its comment. -/
def uncomment (d : Dialect) (line : Text) : Text :=
  ((d.pieces none line).1.filter (·.kind ≠ .comment)).flatMap Piece.text

/-- A text without its comments. -/
def uncommented (d : Dialect) (t : Text) : Text := t.lines.flatMap d.uncomment

/-! ## In front of a comment -/

/-- What opens a comment starts with the marker, which is not empty. -/
theorem marker_of_opensComment (h : d.opensComment before u) : d.marker ≠ [] ∧ d.marker <+: u := by
  simp only [opensComment, Bool.and_eq_true, Bool.not_eq_true', List.isEmpty_eq_false_iff] at h
  exact ⟨h.1.1, List.isPrefixOf_iff_prefix.1 h.1.2⟩

/-- The class of a comment shows where one opens and nowhere else. -/
theorem classHere_eq_comment_iff : d.classHere before u = .comment ↔ d.opensComment before u := by
  constructor
  · intro h
    by_contra hopens
    cases u with
    | nil => cases h
    | cons c cs =>
      rw [classHere, if_neg hopens, CharClass.of, CharClass.ofAscii] at h
      repeat' split at h
      all_goals cases h
  · intro h
    obtain ⟨hne, hpre⟩ := marker_of_opensComment h
    cases u with
    | nil => exact absurd (List.prefix_nil.1 hpre) hne
    | cons c cs => rw [classHere, if_pos h]

/-- **Deleting a comment opens no other**: one that opens in front of the gap opened there before. -/
theorem opensComment_of_front (hz : z ≠ []) (hu : d.opensComment z.getLast? u) (h : d.opensComment before z) :
    d.opensComment before (z ++ u) := by
  obtain ⟨hne, hpre⟩ := marker_of_opensComment h
  have hpre' : d.marker <+: z ++ u := hpre.trans (List.prefix_append ..)
  have hempty : d.marker.isEmpty = false := List.isEmpty_eq_false_iff.2 hne
  rw [opensComment, List.isPrefixOf_iff_prefix.2 hpre', hempty]
  rw [opensComment, List.isPrefixOf_iff_prefix.2 hpre, hempty] at h
  cases hword : d.hasWordMarker with
  | false => rfl
  | true =>
    rw [List.drop_append_of_le_length hpre.length_le]
    cases hdrop : z.drop d.marker.length with
    | cons c cs => simpa [hword, hdrop] using h
    | nil =>
      -- the marker would be all of `z`, and a word, behind which no comment opens
      obtain rfl : d.marker = z := by
        refine hpre.eq_of_length (Nat.le_antisymm hpre.length_le ?_)
        have := congrArg List.length hdrop
        rw [List.length_drop, List.length_nil] at this
        omega
      rw [opensComment, hword] at hu
      rw [hasWordMarker] at hword
      simp [hword] at hu

theorem classHere_front (before : Option Char) (hz : z ≠ []) (hu : d.opensComment z.getLast? u)
    (h : d.classHere before (z ++ u) ≠ .comment) : d.classHere before z = d.classHere before (z ++ u) := by
  cases z with
  | nil => exact absurd rfl hz
  | cons c cs =>
    have hopens : ¬d.opensComment before (c :: cs ++ u) := fun ho => h (classHere_eq_comment_iff.2 ho)
    have hopens' : ¬d.opensComment before (c :: cs) := fun ho => hopens (opensComment_of_front hz hu ho)
    rw [List.cons_append] at hopens ⊢
    rw [classHere, classHere, if_neg hopens, if_neg hopens']

/-- **Words and symbols end at a comment as they end with the line**, if it is that comment they end at, or
    no comment. -/
theorem run_front {k : CharClass} (hk : k ≠ .comment) {b : Char} (hu : d.opensComment (b :: z).getLast? u)
    (hstop : z.drop (d.run k b (z ++ u)) = [] ∨
      d.classHere ((b :: z).take (d.run k b (z ++ u) + 1)).getLast? ((z ++ u).drop (d.run k b (z ++ u))) ≠
        .comment) :
    d.run k b z = d.run k b (z ++ u) := by
  induction z generalizing b with
  | nil =>
    have hclass := classHere_eq_comment_iff.2 hu
    cases u with
    | nil => rfl
    | cons c cs =>
      rw [List.nil_append, run, run, if_neg]
      exact fun h => hk (h.symm.trans hclass)
  | cons c z ih =>
    rw [List.getLast?_cons_cons] at hu
    rw [List.cons_append, run] at hstop ⊢
    rw [run]
    by_cases hc : d.classHere (some b) (c :: (z ++ u)) = k
    · have hc' := classHere_front (some b) (by simp) hu (by rw [List.cons_append, hc]; exact hk)
      rw [List.cons_append, hc] at hc'
      rw [if_pos hc] at hstop ⊢
      rw [if_pos hc', ih hu]
      rw [List.drop_succ_cons, List.drop_succ_cons, List.take_succ_cons, List.take_succ_cons,
        List.getLast?_cons_cons] at hstop
      rwa [List.take_succ_cons]
    · rw [if_neg hc] at hstop ⊢
      have hclass := classHere_front (some b) (by simp) hu (hstop.resolve_left (by simp))
      rw [List.cons_append] at hclass
      rw [if_neg (by rwa [hclass])]

/-- **A string that ends before some text ends there too if that text stops short.** -/
theorem stringRest_front {q : Char} {s r r' : Text} (hr : r' <+: r) (h : stringRest q (s ++ r) = s.length) :
    stringRest q (s ++ r') = s.length := by
  obtain ⟨more, rfl⟩ := hr
  cases r' with
  | cons c cs =>
    refine stringRest_congr ?_ h
    rfl
  | nil =>
    rw [List.nil_append] at h
    rw [List.append_nil]
    fun_induction stringRest q s with
    | case1 => rfl
    | case2 => cases more <;> simp [stringRest] at h
    | case3 c hc => rfl
    | case4 => simp [stringRest] at h
    | case5 cs hc ih => simp_all [stringRest]
    | case6 c' cs hc hne => simp [stringRest, hc, hne] at h
    | case7 c c' cs hc hne ih => simp_all [stringRest]

/-- **What stands before a comment is cut off alike without it**, if it is that comment it ends at, or no
    comment. -/
theorem cut_front (heq : d.marker.head? ≠ some '=') {c : Char} {n : Nat} {k : PieceKind}
    (hu : d.opensComment (c :: z).getLast? u) (hcut : d.cut before c (z ++ u) = (k, n)) (hk : k ≠ .comment)
    (hn : n ≤ z.length + 1)
    (hstop : (c :: z).drop n = [] ∨
      d.classHere ((c :: z).take n).getLast? ((c :: z ++ u).drop n) ≠ .comment) :
    d.cut before c z = (k, n) := by
  have hclass : d.classHere before (c :: (z ++ u)) ≠ .comment := by
    intro hc
    rw [cut, hc] at hcut
    exact hk (congrArg Prod.fst hcut).symm
  have hfront := classHere_front before (by simp) hu hclass
  rw [List.cons_append] at hfront
  rw [cut, ← hfront] at hcut
  rw [← hfront] at hclass
  rw [cut]
  cases hc : d.classHere before (c :: z) with
  | comment => exact absurd hc hclass
  | newline | blank | separator => rwa [hc] at hcut
  | quote =>
    rw [hc] at hcut
    obtain ⟨rfl, rfl⟩ := Prod.mk.inj hcut
    have hlen : (z.take (stringRest c (z ++ u))).length = stringRest c (z ++ u) :=
      List.length_take_of_le (Nat.le_of_succ_le_succ hn)
    have hfit := stringRest_front (q := c) (s := z.take (stringRest c (z ++ u)))
      (List.prefix_append (z.drop (stringRest c (z ++ u))) u)
      (by rw [← List.append_assoc, List.take_append_drop, hlen])
    rw [List.take_append_drop, hlen] at hfit
    rw [hfit]
  | word =>
    rw [hc] at hcut
    obtain ⟨rfl, rfl⟩ := Prod.mk.inj hcut
    rw [run_front (by decide) hu hstop]
  | symbol =>
    have hhead : (z ++ u).head? = some '=' ↔ z.head? = some '=' := by
      cases z with
      | cons => rfl
      | nil =>
        obtain ⟨hne, more, rfl⟩ := marker_of_opensComment hu
        cases hm : d.marker with
        | nil => exact absurd hm hne
        | cons m ms => simpa [hm] using heq
    rw [hc] at hcut
    simp only [ne_eq, hhead] at hcut ⊢
    by_cases heq' : (c = '=' && !decide (z.head? = some '=')) = true
    · simpa [heq'] using hcut
    · simp only [decide_not, heq', Bool.false_eq_true, ↓reduceIte] at hcut ⊢
      obtain ⟨rfl, rfl⟩ := Prod.mk.inj hcut
      rw [run_front (by decide) hu hstop]

/-! ## Lines -/

/-- A text is cut into a piece at least, and the first one is a comment where one opens. -/
theorem exists_firstPiece (d : Dialect) (before : Option Char) {t : Text} (ht : t ≠ []) :
    ∃ p ps, (d.pieces before t).1 = p :: ps ∧ (d.classHere before t = .comment → p.kind = .comment) := by
  cases t with
  | nil => exact absurd rfl ht
  | cons c cs =>
    have hkind (h : d.classHere before (c :: cs) = .comment) : (d.cut before c cs).1 = .comment := by
      rw [cut, h]
    rw [pieces_cons]
    split
    · exact ⟨_, _, rfl, hkind⟩
    · exact ⟨_, _, rfl, hkind⟩

/-- A piece before a comment stays the first of its line. -/
theorem pieces_front (before : Option Char) (heq : d.marker.head? ≠ some '=') {c : Char} {f y gone : Text}
    {k : PieceKind} (hu : d.opensComment (c :: (f ++ y)).getLast? gone)
    (hcut : d.cut before c (f ++ y ++ gone) = (k, (c :: f).length)) (hcomment : k ≠ .comment)
    (hbreak : k ≠ .newline)
    (hstop : y = [] ∨ d.classHere (c :: f).getLast? (y ++ gone) ≠ .comment) :
    (d.pieces before (c :: (f ++ y))).1 = ⟨k, c :: f⟩ :: (d.pieces (c :: f).getLast? y).1 := by
  have hcut' : d.cut before c (f ++ y) = (k, (c :: f).length) := by
    refine cut_front heq hu hcut hcomment (by simp) ?_
    rwa [← List.cons_append, List.drop_left, List.take_left, List.append_assoc, List.drop_left]
  rw [pieces_cons, hcut', if_neg (by simp [hbreak]), ← List.cons_append, List.take_left, List.drop_left]

/-- **A line is cut into the same pieces up to its comment as without it**: either it has no comment, or it
    ends with one. -/
theorem exists_comment (heq : d.marker.head? ≠ some '=') (before : Option Char) {w : Text} (hw : '\n' ∉ w) :
    (∀ p ∈ (d.pieces before w).1, p.kind ≠ .comment) ∨
      ∃ y gone, w = y ++ gone ∧ gone ≠ [] ∧ d.opensComment (y.getLast?.or before) gone ∧
        (d.pieces before w).1 = (d.pieces before y).1 ++ [⟨.comment, gone⟩] ∧
        ∀ p ∈ (d.pieces before y).1, p.kind ≠ .comment := by
  fun_induction pieces d before w with
  | case1 => exact .inl (by simp)
  | case2 before c cs n kind h => exact absurd (d.cut_stops before c cs h ▸ List.mem_cons_self) hw
  | case3 before c cs n kind h front ps rest hrest ih =>
    have hsplit : front ++ (c :: cs).drop n = c :: cs := List.take_append_drop ..
    simp only [hrest] at ih
    by_cases hk : kind = .comment
    · -- the comment takes the rest of the line
      obtain ⟨hclass, hall⟩ :
          d.classHere before (c :: cs) = .comment ∧ front = (c :: cs).takeWhile (· ≠ '\n') := by
        have hfits := d.cut_fits before c cs
        rwa [Fits, show (d.cut before c cs).1 = .comment from hk] at hfits
      have hnone : ∀ x ∈ c :: cs, decide (x ≠ '\n') := by
        rintro x hx
        exact decide_eq_true (ne_of_mem_of_not_mem hx hw)
      rw [List.takeWhile_eq_self_iff.2 hnone] at hall
      rw [hall, List.append_right_eq_self] at hsplit
      rw [hsplit, pieces] at hrest
      obtain ⟨rfl, -⟩ := Prod.mk.inj hrest
      refine .inr ⟨[], c :: cs, rfl, List.cons_ne_nil c cs, classHere_eq_comment_iff.1 hclass, ?_, ?_⟩
      · rw [hk, hall, pieces, List.nil_append]
      · simp [pieces]
    · rcases ih (fun hm => hw (List.mem_of_mem_drop hm)) with hps | ⟨y, gone, hy, hne, hopens, hps, hno⟩
      · exact .inl (List.forall_mem_cons.2 ⟨hk, hps⟩)
      · obtain ⟨f, hf⟩ : ∃ f, front = c :: f := by
          have hn : n ≠ 0 := fun h0 => h (.inr h0)
          refine ⟨cs.take (n - 1), ?_⟩
          rw [← List.take_succ_cons, Nat.sub_add_cancel (Nat.pos_of_ne_zero hn)]
        have hn : n = (c :: f).length := by
          rw [← hf, List.length_take, Nat.min_eq_left]
          refine Nat.le_of_lt (Nat.lt_of_not_le fun hle => ?_)
          rw [List.drop_eq_nil_of_le hle] at hy
          exact hne (List.append_eq_nil_iff.1 hy.symm).2
        rw [hy, hf, List.cons_append] at hsplit
        obtain rfl : f ++ y ++ gone = cs := by rw [List.append_assoc, (List.cons.inj hsplit).2]
        have hlast : (c :: (f ++ y)).getLast? = y.getLast?.or front.getLast? := by
          rw [hf, ← List.cons_append, List.getLast?_append]
        have hstop : y = [] ∨ d.classHere front.getLast? (y ++ gone) ≠ .comment := by
          refine or_iff_not_imp_left.2 fun hne' hclass => ?_
          obtain ⟨p, ps', hp, -⟩ := d.exists_firstPiece front.getLast? hne'
          obtain ⟨q, qs, hq, hcomment⟩ :=
            d.exists_firstPiece front.getLast? (List.append_ne_nil_of_right_ne_nil y hne)
          rw [← hy, hrest, hps, hp] at hq
          have hpq : p = q := (List.cons.inj hq).1
          exact hno p (by rw [hp]; exact List.mem_cons_self) (hpq ▸ hcomment hclass)
        have hfirst := pieces_front before heq (by rwa [hlast])
          (show _ = (kind, (c :: f).length) by rw [← hn]) hk (fun h' => h (.inl h')) (hf ▸ hstop)
        rw [← hf] at hfirst
        refine .inr ⟨c :: (f ++ y), gone, rfl, hne, ?_, ?_, ?_⟩
        · rwa [hlast, Option.or_assoc, hf, List.getLast?_cons, Option.some_or, ← List.getLast?_cons, ← hf]
        · rw [hfirst, hps, List.cons_append]
        · rw [hfirst]
          exact List.forall_mem_cons.2 ⟨hk, hno⟩

theorem tokenize_lastLine (hm : '\n' ∉ d.marker) {w : Text} (hw : '\n' ∉ w) :
    d.tokenize w = d.tokensOf (place 0 (d.pieces none w).1) := by
  by_cases hne : w = []
  · rw [hne, tokenize, tokenizeFrom_nil, pieces]
    rfl
  · have hline : Text.IsLine w [] := .inr ⟨fun c hc => ne_of_mem_of_not_mem hc hw, rfl⟩
    have h := tokenizeFrom_line hm hline hne 0
    rwa [List.append_nil, tokenizeFrom_nil, List.append_nil] at h

/-- A line with a break says what it says without, and that it ends. -/
theorem readings_snoc_break (hm : '\n' ∉ d.marker) {w : Text} (hw : '\n' ∉ w) :
    d.readings (w ++ ['\n']) = d.readings w ++ [(.separator, ['\n'], none)] := by
  have hw' : ∀ c ∈ w, c ≠ '\n' := fun c hc => ne_of_mem_of_not_mem hc hw
  have hline : Text.IsLine (w ++ ['\n']) [] := .inl ⟨w, hw', rfl⟩
  have htokens : d.tokenize (w ++ ['\n']) = d.tokenize w ++ [⟨.separator, w.size, w.size + 1, none⟩] := by
    have h := tokenizeFrom_line hm hline (by simp) 0
    rw [List.append_nil, tokenizeFrom_nil, List.append_nil, tokensOf_snoc_break hm hw'] at h
    rw [tokenize, h, tokenize_lastLine hm hw, Nat.zero_add]
  have hsep : Token.reading ⟨.separator, w.size, w.size + 1, none⟩ (w ++ ['\n']) =
      (.separator, ['\n'], none) := by
    have h := Text.slice_size_append w ['\n']
    rw [Text.size_append] at h
    exact congrArg (TokenKind.separator, ·, none) h
  rw [readings, htokens, List.map_append, map_reading_append, List.map_singleton, hsep]

/-- **The comment of a line does not show in what its tokens say.** -/
theorem exists_uncomment (hm : '\n' ∉ d.marker) (heq : d.marker.head? ≠ some '=') {w : Text}
    (hw : '\n' ∉ w) :
    ∃ y gone, w = y ++ gone ∧ d.uncomment w = y ∧ d.uncomment (w ++ ['\n']) = y ++ ['\n'] ∧
      d.readings y = d.readings w := by
  have hw' : ∀ c ∈ w, c ≠ '\n' := fun c hc => ne_of_mem_of_not_mem hc hw
  have htext {y : Text} (hy : '\n' ∉ y) : (d.pieces none y).1.flatMap Piece.text = y := by
    rw [d.pieces_text]
    exact Text.IsLine.firstLine_eq (.inr ⟨fun c hc => ne_of_mem_of_not_mem hc hy, rfl⟩)
  have hfilter {ps : List Piece} (h : ∀ p ∈ ps, p.kind ≠ .comment) : ps.filter (·.kind ≠ .comment) = ps :=
    List.filter_eq_self.2 fun p hp => decide_eq_true (h p hp)
  have hbreak := d.pieces_break hm none hw' []
  rcases exists_comment heq none hw with hno | ⟨y, gone, rfl, hne, hopens, hps, hno⟩
  · refine ⟨w, [], (List.append_nil w).symm, ?_, ?_, rfl⟩
    · rw [uncomment, hfilter hno, htext hw]
    · rw [uncomment, hbreak, List.filter_append, hfilter hno, List.flatMap_append, htext hw]
      rfl
  · have hy : '\n' ∉ y := fun h => hw (List.mem_append_left gone h)
    have hcomment : [(⟨.comment, gone⟩ : Piece)].filter (·.kind ≠ .comment) = [] := rfl
    refine ⟨y, gone, rfl, ?_, ?_, ?_⟩
    · rw [uncomment, hps, List.filter_append, hfilter hno, hcomment, List.append_nil, htext hy]
    · rw [uncomment, hbreak, hps, List.filter_append, List.filter_append, hfilter hno, hcomment,
        List.append_nil, List.flatMap_append, htext hy]
      rfl
    · have htokens : d.tokenize (y ++ gone) = d.tokenize y := by
        rw [tokenize_lastLine hm hw, tokenize_lastLine hm hy, hps, place_append]
        exact congrArg d.tokensOf (List.append_nil _)
      rw [← map_reading_append y gone, ← htokens]
      rfl

/-- **Deleting all comments changes nothing in what the tokens say.** -/
theorem readings_uncommented (hm : '\n' ∉ d.marker) (heq : d.marker.head? ≠ some '=') (t : Text) :
    d.readings (d.uncommented t) = d.readings t := by
  induction t using Text.line_induction with
  | nil => rfl
  | line line rest hne hline hlines ih =>
    have hsplit : d.uncommented (line ++ rest) = d.uncomment line ++ d.uncommented rest := by
      rw [uncommented, hlines, List.flatMap_cons]
      rfl
    rw [hsplit]
    rcases hline with ⟨w, hw, rfl⟩ | ⟨hw, rfl⟩
    · have hw' : '\n' ∉ w := fun h => hw _ h rfl
      obtain ⟨y, gone, rfl, -, hbreak, hsame⟩ := exists_uncomment hm heq hw'
      have hy : '\n' ∉ y := fun h => hw' (List.mem_append_left gone h)
      have hends (x : Text) : (x ++ ['\n']).EndsLine := .inr (by simp)
      rw [hbreak, readings_append hm (hends y), readings_append hm (hends (y ++ gone)), ih,
        readings_snoc_break hm hy, readings_snoc_break hm hw', hsame]
    · have hw' : '\n' ∉ line := fun h => hw _ h rfl
      obtain ⟨y, gone, -, hy, -, hsame⟩ := exists_uncomment hm heq hw'
      have hnil : d.uncommented [] = [] := rfl
      rw [hy, hnil, List.append_nil, List.append_nil, hsame]

/-- **Comments are invisible to tokens.**  Whatever the marker, as long as it holds no line break and does
    not start with `=`: lexing a text ends with and without its comments, and the tokens are as many, in the
    same order and of the same kinds, texts and names. -/
theorem comments_invisible (d : Dialect) (hm : '\n' ∉ d.marker) (heq : d.marker.head? ≠ some '=') (t : Text) :
    d.tokenize? t = some (d.tokenize t) ∧
      d.tokenize? (d.uncommented t) = some (d.tokenize (d.uncommented t)) ∧
      d.readings (d.uncommented t) = d.readings t := by
  have hhead : d.marker.head? ≠ some '\n' := fun h => hm (List.mem_of_head? h)
  exact ⟨tokenize?_eq hhead t, tokenize?_eq hhead _, readings_uncommented hm heq t⟩

/-- A word as the marker, behind a `then` at the end of its line, a string that holds it, a `=` and an `end`. -/
theorem comments_invisible_rem :
    let d : Dialect := ⟨"rem".toList, true⟩
    let t := "if a then rem b\nx = 'rem' =rem\nend rem if".toList
    d.uncommented t = "if a then \nx = 'rem' =\nend ".toList ∧
      d.readings t = [(.ifBlock, "if".toList, none), (.expr, "a".toList, none),
        (.thenWord, "then".toList, none), (.separator, "\n".toList, none), (.var, "x".toList, none),
        (.expr, "=".toList, none), (.expr, "'rem'".toList, none), (.expr, "=".toList, none),
        (.separator, "\n".toList, none), (.endBare, "end".toList, none)] ∧
      d.readings (d.uncommented t) = d.readings t :=
  ⟨by decide +kernel, by decide +kernel, (comments_invisible _ (by decide) (by decide) _).2.2⟩

end Dialect

end BlockScript
