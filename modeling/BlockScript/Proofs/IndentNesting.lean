/-
  Indentation follows the nesting.

  The indentation of a line is searched for from the line itself: back from its first token if that one
  closes or continues a construct, and back from its start otherwise.  In a cleanly nested script both
  searches end where a full parse says: `nestedIndentation` reads the tokens before the line once, with a
  stack of open constructs, and looks at nothing but that stack and the first token of the line.

  1. **The tokens around a line** (`exists_lineCut`): those before it, those on it and those after it, for
     every offset, also on the empty line at the end of a text and past the end.
  2. **The opener a line hangs on** (`hangsOn_nested`): what the searches find is on top of the stack, or
     is the innermost block `if` on it.

  `indentation_follows_nesting` puts both together.
-/
import BlockScript.Proofs.ClosingLine
import BlockScript.Proofs.IndentLevels

namespace BlockScript

/-! ## Where lines start -/

namespace Text

/-- A walk over a text that ends in a line break, to an offset past it, ends on the empty line there. -/
theorem findLine_snoc_break (p : Nat) (w : Text) :
    ∀ (off : Nat) (line : Nat × Text), off + size w + 1 ≤ p →
      findLine p off line (w ++ ['\n']) = (off + size w + 1, []) := by
  induction w with
  | nil =>
    intro off line h
    have hbreak : '\n'.utf8Size = 1 := rfl
    rw [size_nil] at h
    rw [List.nil_append, findLine, hbreak, if_pos (by omega), if_pos rfl]
    rfl
  | cons c w ih =>
    intro off line h
    rw [size_cons] at h ⊢
    rw [List.cons_append, findLine, if_pos (by omega), ih _ _ (by omega)]
    congr 1
    omega

/-- Past a text that ends in a line break, the line is the empty one at its end. -/
theorem lineStart_of_size_le {t : Text} {p : Nat} (ht : EndsLine t) (hp : t.size ≤ p) :
    t.lineStart p = t.size := by
  rcases ht with rfl | hlast
  · rfl
  · obtain ⟨w, rfl⟩ := List.getLast?_eq_some_iff.1 hlast
    have hbreak : size ['\n'] = 1 := rfl
    rw [size_append, hbreak] at hp ⊢
    rw [lineStart, lineAt, findLine_snoc_break p w 0 _ (by omega)]
    show 0 + size w + 1 = size w + 1
    omega

/-- **The line that starts where the line of an offset starts is that line.** -/
theorem lineStart_lineStart (t : Text) (p : Nat) : t.lineStart (t.lineStart p) = t.lineStart p := by
  obtain ⟨before, ht, hsize, hends⟩ := lineAt_split t p
  have hstart : t.lineStart p = before.size := hsize.symm
  generalize (lineAt t p).2 = rest at ht
  rw [hstart]
  by_cases hrest : rest = []
  · rw [hrest, List.append_nil] at ht
    rw [ht]
    exact lineStart_of_size_le hends (Nat.le_refl _)
  · have hfirst : 0 < size (firstLine rest) := by
      obtain ⟨line, more, rfl, hne, hline, -⟩ := exists_isLine hrest
      rw [hline.firstLine]
      exact size_pos hne
    have hpos := size_pos hrest
    have hlt : before.size < size (before ++ rest) := by
      rw [size_append]
      omega
    rw [lineStart, ht, lineAt_append hends (Nat.le_refl _) (by omega) hlt]

end Text

/-! ## The tokens around a line -/

/-- The tokens of a buffer around the line that starts at offset `start`: those before it, those on it
    and those after it. -/
structure Dialect.LineCut (d : Dialect) (b : Buffer) (start : Nat) (pre line later : List Token) :
    Prop where
  tokens : d.tokenize b.text = pre ++ (line ++ later)
  before : Token.Laid 0 start pre
  after : ∀ t ∈ line ++ later, start ≤ t.start
  onLine : ∀ t ∈ line, t.start ≤ b.text.lineEnd start
  behind : ∀ t ∈ later, b.text.lineEnd start < t.start

namespace Dialect

variable {d : Dialect} {b : Buffer} {start : Nat} {pre line later : List Token}

namespace LineCut

theorem gap (h : d.LineCut b start pre line later) : d.Gap b.text start pre.reverse (line ++ later) := by
  refine ⟨by rw [List.reverse_reverse, h.tokens], fun y hy => ?_, fun y hy => ?_⟩
  · exact (h.before.bounds (List.mem_reverse.1 hy)).2.2
  · have hmem : y ∈ d.tokenize b.text := by
      rw [h.tokens]
      exact List.mem_append_right _ hy
    have := h.after y hy
    have := (d.tokenize_laid b.text).bounds hmem
    omega

theorem cut (h : d.LineCut b start pre line later) : d.Cut b.text start pre.reverse (line ++ later) := by
  refine ⟨by rw [List.reverse_reverse, h.tokens], fun y hy => ?_, h.after⟩
  have := h.before.bounds (List.mem_reverse.1 hy)
  omega

/-- The tokens before the line are those that start before it. -/
theorem filter_before (h : d.LineCut b start pre line later) :
    (d.tokenize b.text).filter (·.start < start) = pre := by
  have hpre : pre.filter (·.start < start) = pre := by
    refine List.filter_eq_self.2 fun t ht => ?_
    have := h.before.bounds ht
    exact decide_eq_true (by omega)
  have hrest : (line ++ later).filter (·.start < start) = [] := by
    refine List.filter_eq_nil_iff.2 fun t ht => ?_
    have := h.after t ht
    simpa using this
  rw [h.tokens, List.filter_append, hpre, hrest, List.append_nil]

/-- The tokens on the line and after it are the others. -/
theorem filter_after (h : d.LineCut b start pre line later) :
    (d.tokenize b.text).filter (start ≤ ·.start) = line ++ later := by
  have hpre : pre.filter (start ≤ ·.start) = [] := by
    refine List.filter_eq_nil_iff.2 fun t ht => ?_
    have := h.before.bounds ht
    simp only [decide_eq_true_eq, Nat.not_le]
    omega
  have hrest : (line ++ later).filter (start ≤ ·.start) = line ++ later :=
    List.filter_eq_self.2 fun t ht => decide_eq_true (h.after t ht)
  rw [h.tokens, List.filter_append, hpre, hrest, List.nil_append]

end LineCut

/-- **The tokens of a buffer fall apart around every line.** -/
theorem exists_lineCut (d : Dialect) (b : Buffer) (p : Nat) :
    ∃ pre line later, d.LineCut b (b.text.lineStart p) pre line later := by
  by_cases hin : b.text.lineStart p < b.size
  · obtain ⟨pre, post, htokens, hpre, hline, hpost⟩ := d.tokenize_around hin
    have hself : (d.lineAt b (b.text.lineStart p)).start = b.text.lineStart p :=
      b.text.lineStart_lineStart p
    obtain ⟨before, ht, hsize, hends⟩ := b.text.lineAt_split (b.text.lineStart p)
    -- the line ends in its break, and what follows it lies behind that
    have hstop : (d.lineAt b (b.text.lineStart p)).stop =
        before.size + Text.size (Text.firstLine (b.text.lineAt (b.text.lineStart p)).2) := by
      rw [hsize]
      simp only [lineAt, Piece.totalSize, d.pieces_text]
    have hbefore : before.size = b.text.lineStart p := hsize.trans hself
    generalize (b.text.lineAt (b.text.lineStart p)).2 = rest at ht hstop
    have hne : rest ≠ [] := by
      rintro rfl
      rw [List.append_nil] at ht
      rw [← hbefore, b.size_eq, ht] at hin
      omega
    obtain ⟨first, more, rfl, hfirst, hisline, -⟩ := Text.exists_isLine hne
    obtain ⟨hon, hpast⟩ := hisline.lineEnd (a := before)
    rw [← ht, hbefore] at hon hpast
    rw [hisline.firstLine, hbefore] at hstop
    rw [hself] at hpre hline
    refine ⟨pre, _, post, htokens, hpre, fun t ht => ?_, fun t ht => ?_, fun t ht => ?_⟩
    · rcases List.mem_append.1 ht with ht | ht
      · exact (hline.bounds ht).1
      · have := (hpost.bounds ht).1
        omega
    · have := hline.bounds ht
      exact hon t.start (by omega)
    · have hbounds := hpost.bounds ht
      have hmore : more ≠ [] := by
        rintro rfl
        have := congrArg Text.size ‹b.text = _›
        rw [List.append_nil, Text.size_append, ← b.size_eq, hbefore] at this
        omega
      have := hpast hmore
      omega
  · -- the empty line at the end of the text
    refine ⟨d.tokenize b.text, [], [], by simp, ?_, by simp, by simp, by simp⟩
    have hlaid : Token.Laid 0 (b.text.lineStart p) (d.tokenize b.text ++ []) := by
      refine (d.tokenize_laid b.text).append ?_
      show b.text.size ≤ b.text.lineStart p
      rw [← b.size_eq]
      omega
    rwa [List.append_nil] at hlaid

end Dialect

/-! ## The indentation that the nesting asks for -/

/-- The open construct that a line stands as deep as, when it starts with `first` after the tokens
    `before` and ahead of the token `next`: the innermost one if `first` closes it, and the innermost
    block `if` if `first` continues that. -/
def Token.alignedOn (stack before : List Token) (first : Token) (next : Option Token) : Option Token :=
  if first.kind.role = .closer then stack.head?
  else if first.kind = .elseBlock && !flatAfter before.reverse ||
      first.continuesBetween before.getLast? next then
    stack.find? (·.kind = .ifBlock)
  else none

namespace Profile

/-- The indentation of the line of offset `p` as a full parse of the tokens before that line has it.  A
    line that closes or continues a construct stands as deep as the line of that construct; any other
    line stands one unit deeper than the line of the innermost open construct. -/
def nestedIndentation (P : Profile) (t : Text) (p : Nat) : Indentation :=
  let start := t.lineStart p
  let before := (P.tokenize t).filter (·.start < start)
  let onward := (P.tokenize t).filter (start ≤ ·.start)
  let stack := (parse before).stack
  let aligned := (onward.head?.filter (·.start ≤ t.lineEnd start)).bind fun first =>
    first.alignedOn stack before onward.tail.head?
  match aligned, stack with
  | some o, _ => ⟨some (t.lineStart o.start), 0⟩
  | none, o :: _ => ⟨some (t.lineStart o.start), 1⟩
  | none, [] => ⟨none, 0⟩

variable {P : Profile} {b : Buffer} {rev post : List Token}

/-- Only a block `if` has an `else`. -/
theorem accepts_elseBlock {c : Token} (hc : c.kind = .elseBlock) (o : Token) :
    P.accepts o c = decide (o.kind = .ifBlock) := by
  rw [Bool.eq_iff_iff, accepts_iff_mem, decide_eq_true_iff, hc, reachOf_blockTable]
  cases o.kind <;> simp

/-- In a cleanly nested script a line is aligned with the construct that the stack says. -/
theorem alignedIn_nested {first : Token} (h : P.CleanlyNested (rev.reverse ++ first :: post)) :
    P.alignedIn rev first post.head? =
      first.alignedOn (parse rev.reverse).stack rev.reverse post.head? := by
  have hsearch := fun c => openerIn_eq_find? h c
  have helse : ∀ c : Token, c.kind = .elseBlock → P.openerIn { pending := [c] } rev =
      (parse rev.reverse).stack.find? (·.kind = .ifBlock) := by
    intro c hc
    rw [hsearch]
    simp only [accepts_elseBlock hc]
  rw [alignedIn, Token.alignedOn, List.getLast?_reverse, List.reverse_reverse]
  by_cases hcloser : first.kind.role = .closer
  · -- the closer is accepted by the top of the stack, so that is the construct found
    have hcont : first.continuesBetween rev.head? post.head? = false :=
      Token.continuesBetween_eq_false
        ((Token.roleAfter_eq_closer.2 hcloser).trans hcloser.symm) (by simp [hcloser]) _
    have hnest : (parse rev.reverse).Nests P (first :: post) := ((Parse.nests_append _ _ _).1 h).2
    obtain ⟨o, hhead, hacc⟩ := (Option.any_eq_true _ _).1 (hnest.1 hcloser)
    obtain ⟨stack, hstack⟩ := List.head?_eq_some_iff.1 hhead
    rw [hcont, if_neg (by simp), if_pos hcloser, if_pos hcloser, hsearch, hstack,
      List.find?_cons_of_pos (p := (P.accepts · first)) hacc]
    rfl
  · rw [if_neg hcloser, if_neg hcloser]
    by_cases hcont : first.continuesBetween rev.head? post.head?
    · rw [if_pos hcont, if_pos (by simp [hcont]), helse _ rfl]
    · rw [if_neg hcont]
      by_cases hk : first.kind = .elseBlock
      · cases hflat : flatAfter rev with
        | true => simp [hk, hcont]
        | false => simp [hk, helse first hk]
      · rw [if_neg hk, if_neg (by simp [hk, hcont])]

/-- The construct that a line of a cleanly nested script is aligned with, whether or not the line has
    a token. -/
theorem aligned_nested {line later : List Token}
    (h : P.CleanlyNested (rev.reverse ++ (line ++ later))) :
    (line.head?.bind fun first => P.alignedIn rev first (line.tail ++ later).head?) =
      line.head?.bind fun first =>
        first.alignedOn (parse rev.reverse).stack rev.reverse (line ++ later).tail.head? := by
  cases line with
  | nil => rw [List.head?_nil, Option.bind_none, Option.bind_none]
  | cons first line =>
    rw [List.head?_cons, Option.bind_some, Option.bind_some, List.tail_cons, List.cons_append, List.tail_cons]
    exact alignedIn_nested h

/-- **A line that is aligned with a construct hangs on it**, and no deeper. -/
theorem hangsOn_aligned {line later : List Token} {o : Token}
    (h : (line.head?.bind fun first => P.alignedIn rev first (line.tail ++ later).head?) = some o) :
    P.hangsOn rev line later = (some o, 0) := by
  rw [hangsOn, h]

/-- **Any other line of a cleanly nested script hangs on the top of the stack**, one unit deeper. -/
theorem hangsOn_open {line later : List Token}
    (hclean : P.CleanlyNested (rev.reverse ++ (line ++ later)))
    (h : (line.head?.bind fun first => P.alignedIn rev first (line.tail ++ later).head?) = none) :
    P.hangsOn rev line later = ((parse rev.reverse).stack.head?,
      if (parse rev.reverse).stack.head?.isSome then 1 else 0) := by
  rw [hangsOn, h]
  show ((P.unclosedIn {} rev).1, if (P.unclosedIn {} rev).1.isSome then 1 else 0) = _
  rw [unclosedIn_nested hclean]

/-- Without a bound on the visits the indentation of a line is that of the opener it hangs on. -/
theorem indentation_of_lineCut (h0 : P.layout.maxVisits = 0) {p : Nat} {pre line later : List Token}
    (hcut : P.dialect.LineCut b (b.text.lineStart p) pre line later) :
    P.indentation b p = ⟨(P.hangsOn pre.reverse line later).1.map (b.text.lineStart ·.start),
      (P.hangsOn pre.reverse line later).2⟩ := by
  have hself := b.text.lineStart_lineStart p
  have hsame : P.indentation b p = P.indentation b (b.text.lineStart p) := by
    rw [indentation, indentation, findIndentation_eq, findIndentation_eq, hself]
  have hn : (P.findIndentation b (b.text.lineStart p)).2.exhausted = false :=
    Scanner.exhausted_eq_false ((findIndentation_follows _).budget.trans (scanner_budget h0))
  rw [hsame, indentation_eq hself hcut.gap hcut.cut hcut.onLine hcut.behind hn]

/-- **Indentation follows the nesting.**  In a cleanly nested script, without a bound on the searches, the
    indentation of every line is the one that a full parse of the tokens before it asks for. -/
theorem indentation_follows_nesting (P : Profile) (b : Buffer) (h0 : P.layout.maxVisits = 0)
    (hclean : P.CleanlyNested (P.tokenize b.text)) (p : Nat) :
    P.indentation b p = P.nestedIndentation b.text p := by
  obtain ⟨pre, line, later, hcut⟩ := P.dialect.exists_lineCut b p
  have hfirst : ((line ++ later).head?.filter (·.start ≤ b.text.lineEnd (b.text.lineStart p))) =
      line.head? := by
    cases line with
    | cons first line =>
      have := hcut.onLine first (List.mem_cons_self ..)
      simp [this]
    | nil =>
      cases later with
      | nil => rfl
      | cons x later =>
        have := hcut.behind x (List.mem_cons_self ..)
        simpa using this
  rw [tokenize, hcut.tokens] at hclean
  have hrev : P.CleanlyNested (pre.reverse.reverse ++ (line ++ later)) := by rwa [List.reverse_reverse]
  have haligned := aligned_nested hrev
  have hopen := hangsOn_open hrev
  rw [List.reverse_reverse] at haligned hopen
  rw [indentation_of_lineCut h0 hcut, nestedIndentation, tokenize, hcut.filter_before,
    hcut.filter_after, hfirst, ← haligned]
  cases hal : line.head?.bind fun first => P.alignedIn pre.reverse first (line.tail ++ later).head? with
  | some o => rw [hangsOn_aligned hal]; rfl
  | none =>
    rw [hopen hal]
    cases (parse pre).stack with
    | nil => rfl
    | cons o stack => rfl

/-- A loop around a condition.  The `else if` at 25 stands as deep as the `if` at 15; the `else` at 53 ends
    the single-line condition above the empty line, and stands inside the block. -/
theorem indentation_follows_nesting_flat_else :
    let P : Profile := { layout := { maxVisits := 0 } }
    let b := Buffer.ofText
      "for i = 1 to 2\nif a then\nelse if b then\nif c then d\n\nelse\nend if\nnext i\n".toList
    P.CleanlyNested (P.tokenize b.text) ∧
      P.indentation b 27 = ⟨some 15, 0⟩ ∧ P.indentation b 53 = ⟨some 15, 1⟩ ∧
      P.indentation b 58 = ⟨some 15, 0⟩ ∧ P.indentation b 72 = ⟨none, 0⟩ := by
  intro P b
  have hrun : P.CleanlyNested (P.tokenize b.text) ∧
      P.nestedIndentation b.text 27 = ⟨some 15, 0⟩ ∧ P.nestedIndentation b.text 53 = ⟨some 15, 1⟩ ∧
      P.nestedIndentation b.text 58 = ⟨some 15, 0⟩ ∧ P.nestedIndentation b.text 72 = ⟨none, 0⟩ := by
    decide +kernel
  obtain ⟨hclean, helseIf, helse, hend, hlast⟩ := hrun
  have hfollows := indentation_follows_nesting P b rfl hclean
  exact ⟨hclean, (hfollows 27).trans helseIf, (hfollows 53).trans helse, (hfollows 58).trans hend,
    (hfollows 72).trans hlast⟩

end Profile

end BlockScript
