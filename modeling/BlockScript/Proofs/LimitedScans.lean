/-
  A scanner with a budget is the one without, cut short.

  1. **Lines end in a token** (`lineAt_ends`).  The break of a line is its last piece, and reads as a
     separator; only the last line of a text has none.
  2. **Few visits** (`next_visited`, `prev_visited`).  So a search ahead finds a token on the line it
     starts on, or there is no line after it; and a search back that leaves its line finds the break
     right before it (`lineAt_stop_pred`).
  3. **Calls in step** (`limited_scans_cut_short`).  Whatever was asked before, both scanners answer with
     the same token of the text as long as the budget holds (`call_tells`), and from the call that spends
     it on there are only edges.
-/
import BlockScript.Proofs.Scanning
import BlockScript.Proofs.LexerTurns

namespace BlockScript

/-! ## Where a line ends -/

namespace Text

variable {t : Text} {q : Nat}

theorem firstLine_eq_self (h : '\n' ∉ t) : firstLine t = t := by
  have hline : IsLine t [] := .inr ⟨fun c hc hbreak => h (hbreak ▸ hc), rfl⟩
  exact hline.firstLine_eq

/-- The line before another one ends where that one starts. -/
theorem lineAt_stop_pred (hq : q < t.size) (h0 : (lineAt t q).1 ≠ 0) :
    (lineAt t ((lineAt t q).1 - 1)).1 + size (firstLine (lineAt t ((lineAt t q).1 - 1)).2) =
      (lineAt t q).1 := by
  have hle := lineAt_start_le t q
  have hlt := lineAt_lt_stop hq
  have hpred : (lineAt t q).1 - 1 < t.size := by omega
  have hafter := lineAt_lt_stop hpred
  have hbefore := lineAt_start_le t ((lineAt t q).1 - 1)
  refine Nat.le_antisymm (Nat.le_of_not_lt fun hover => ?_) (by omega)
  -- a line that reached further would hold the start of the other one, and be that line
  have hstart : lineAt t (lineAt t q).1 = lineAt t q :=
    lineAt_eq_of_holds (by omega) (Nat.le_refl _) (by omega)
  have hsame : lineAt t (lineAt t q).1 = lineAt t ((lineAt t q).1 - 1) :=
    lineAt_eq_of_holds (by omega) (by omega) hover
  rw [← hsame, hstart] at hbefore
  omega

end Text

namespace Dialect

variable {d : Dialect} {b : Buffer} {p : Nat}

/-- The last piece of a line that has a break is the break. -/
theorem exists_pieces_snoc (hm : d.marker.head? ≠ some '\n') (before : Option Char) {t : Text} (h : '\n' ∈ t) :
    ∃ ps, (d.pieces before t).1 = ps ++ [⟨.newline, ['\n']⟩] := by
  fun_induction pieces d before t with
  | case1 => cases h
  | case2 before c cs n kind hstop =>
    obtain rfl : c = '\n' := d.cut_stops before c cs hstop
    have hbreak := pieces_newline hm before cs
    rw [pieces_cons, if_pos hstop] at hbreak
    exact ⟨[], congrArg Prod.fst hbreak⟩
  | case3 before c cs n kind hgo front ps rest heq ih =>
    have hfront : '\n' ∉ front := fun hmem => d.cut_noBreak before c cs (fun hk => hgo (.inl hk)) '\n' hmem rfl
    have hsplit : front ++ (c :: cs).drop n = c :: cs := List.take_append_drop n (c :: cs)
    rw [← hsplit] at h
    obtain ⟨ps', hps'⟩ := ih ((List.mem_append.1 h).resolve_left hfront)
    rw [heq] at hps'
    exact ⟨⟨kind, front⟩ :: ps', by rw [show ps = _ from hps', List.cons_append]⟩

/-- **A line ends in a token**, unless the text ends with it. -/
theorem lineAt_ends (hm : d.marker.head? ≠ some '\n') (b : Buffer) (p : Nat) :
    (d.lineAt b p).stop = b.size ∨
      ∃ ts x, (d.lineAt b p).tokens = ts ++ [x] ∧ x.start < x.stop ∧ x.stop = (d.lineAt b p).stop := by
  obtain ⟨before, ht, hs, -⟩ := b.text.lineAt_split p
  have hline : d.lineAt b p = ⟨(b.text.lineAt p).1,
      (b.text.lineAt p).1 + Piece.totalSize (d.pieces none (b.text.lineAt p).2).1,
      d.tokensOf (place (b.text.lineAt p).1 (d.pieces none (b.text.lineAt p).2).1)⟩ := rfl
  by_cases hbreak : '\n' ∈ (b.text.lineAt p).2
  · obtain ⟨ps, hps⟩ := exists_pieces_snoc hm none hbreak
    have hlast : Piece.totalSize (ps ++ [⟨.newline, ['\n']⟩]) = Piece.totalSize ps + 1 := by
      rw [Piece.totalSize, List.flatMap_append, Text.size_append]
      rfl
    refine .inr ⟨d.read .outside (place (b.text.lineAt p).1 ps),
      Lexeme.token ⟨.newline, (b.text.lineAt p).1 + Piece.totalSize ps, ['\n']⟩ .separator, ?_, ?_, ?_⟩
    · rw [hline, hps, place_append]
      exact read_snoc_break rfl _ _
    · exact Nat.lt_succ_self _
    · rw [hline, hps, hlast]
      rfl
  · refine .inl ?_
    rw [hline, Piece.totalSize, d.pieces_text, Text.firstLine_eq_self hbreak, ← hs, ← Text.size_append, ← ht,
      b.size_eq]

/-- Where the text does not end with the line of an offset, a token of that line ends after the offset. -/
theorem exists_token_after (hm : d.marker.head? ≠ some '\n') (hp : p < b.size)
    (hlast : (d.lineAt b p).stop ≠ b.size) : ((d.lineAt b p).tokens.find? (p < ·.stop)).isSome := by
  obtain ⟨ts, x, htokens, -, hstop⟩ := (lineAt_ends hm b p).resolve_left hlast
  have hlt := d.lineAt_lt_stop hp
  rw [List.find?_isSome]
  exact ⟨x, by simp [htokens], by simpa [hstop] using hlt⟩

/-- On the line before another one a token starts before that one does. -/
theorem exists_token_before (hm : d.marker.head? ≠ some '\n') {q : Nat} (hq : q < b.size)
    (h0 : (d.lineAt b q).start ≠ 0) :
    ((d.lineAt b ((d.lineAt b q).start - 1)).tokens.reverse.find? (·.start < (d.lineAt b q).start)).isSome := by
  have hstop : (d.lineAt b ((d.lineAt b q).start - 1)).stop = (d.lineAt b q).start := by
    have := Text.lineAt_stop_pred (b.size_eq ▸ hq) h0
    rwa [← d.pieces_text none] at this
  have hle := d.lineAt_start_le b q
  obtain hend | ⟨ts, x, htokens, hx, hxstop⟩ := lineAt_ends hm b ((d.lineAt b q).start - 1)
  · omega
  · rw [List.find?_isSome]
    exact ⟨x, by simp [htokens], by simpa using by omega⟩

end Dialect

/-! ## Visits -/

namespace Scanner

variable {d : Dialect} {b : Buffer} {s : Scanner}

theorem next_end (s : Scanner) (d : Dialect) (b : Buffer) : s.next d b b.size = (Token.edgeAt b.size, s) := by
  rw [next, dif_neg (Nat.lt_irrefl _)]

/-- A search ahead makes one visit at most. -/
theorem next_visited (hm : d.marker.head? ≠ some '\n') (hs : s.Sound d b) (p : Nat) :
    (s.next d b p).2.visited ≤ s.visited + 1 := by
  fun_cases next s d b p with
  | case1 hp he => exact Nat.le_refl _
  | case2 hp he found t ht => exact Nat.le_of_eq (s.visit.lineAt_visited d b p).2
  | case3 hp he found hnone =>
    -- nothing on the line, so the text ends with it, and that is seen without another visit
    obtain ⟨hline, -, -⟩ := lineAt_spec ((visit_follows s).sound hs) hp
    rw [show found.1 = d.lineAt b p from hline] at hnone ⊢
    have hend : (d.lineAt b p).stop = b.size := by
      by_contra hlast
      have hsome := Dialect.exists_token_after hm hp hlast
      rw [hnone] at hsome
      cases hsome
    rw [hend, next_end]
    exact Nat.le_of_eq (s.visit.lineAt_visited d b p).2
  | case4 hp => exact Nat.le_succ _

/-- A search back from the start of a line makes one visit at most. -/
theorem prevWithin_visited_start (hm : d.marker.head? ≠ some '\n') (hs : s.Sound d b) {q : Nat}
    (hq : q < b.size) :
    (s.prevWithin d b (d.lineAt b q).start).2.visited ≤ s.visited + 1 := by
  have hle := d.lineAt_start_le b q
  fun_cases prevWithin s d b (d.lineAt b q).start with
  | case1 h0 => exact Nat.le_succ _
  | case2 h0 he => exact Nat.le_refl _
  | case3 h0 he found t ht => exact Nat.le_of_eq (s.visit.lineAt_visited d b _).2
  | case4 h0 he found hnone =>
    have hpred : (d.lineAt b q).start - 1 < b.size := by omega
    obtain ⟨hline, -, -⟩ := lineAt_spec ((visit_follows s).sound hs) hpred
    rw [show found.1 = d.lineAt b ((d.lineAt b q).start - 1) from hline] at hnone
    have hsome := Dialect.exists_token_before hm hq h0
    rw [hnone] at hsome
    cases hsome

/-- A search back makes two visits at most: one to its line, and one to the line before. -/
theorem prev_visited (hm : d.marker.head? ≠ some '\n') (hs : s.Sound d b) (p : Nat) :
    (s.prev d b p).2.visited ≤ s.visited + 2 := by
  have hmin := Nat.min_le_right p b.size
  rw [prev]
  fun_cases prevWithin s d b (min p b.size) with
  | case1 h0 => exact Nat.le_add_right _ 2
  | case2 h0 he => exact Nat.le_succ _
  | case3 h0 he found t ht =>
    have hvisited : found.2.visited = s.visited + 1 := (s.visit.lineAt_visited d b _).2
    show found.2.visited ≤ s.visited + 2
    omega
  | case4 h0 he found hnone =>
    have hpred : min p b.size - 1 < b.size := by omega
    have hvisited : found.2.visited = s.visited + 1 := (s.visit.lineAt_visited d b _).2
    obtain ⟨hline, hfollows, -⟩ := lineAt_spec ((visit_follows s).sound hs) hpred
    rw [show found.1 = d.lineAt b (min p b.size - 1) from hline]
    have hstart : (found.2.prevWithin d b (d.lineAt b (min p b.size - 1)).start).2.visited ≤
        found.2.visited + 1 :=
      prevWithin_visited_start hm (hfollows.sound ((visit_follows s).sound hs)) hpred
    omega

/-! ## Calls in step -/

/-- The token a call is answered with. -/
def reply (d : Dialect) (b : Buffer) (s : Scanner) : Call → Token
  | .next p => (s.next d b p).1
  | .prev p => (s.prev d b p).1
  | .forward p => (s.forward d b p).1
  | .backward p => (s.backward d b p).1

/-- The token of the text that a call asks for. -/
def Call.target (d : Dialect) (t : Text) : Call → Token
  | .next p | .forward p => d.tokenAfter t p
  | .prev p | .backward p => d.tokenBefore t p

/-- How many lines a call may visit. -/
def Call.maxVisits : Call → Nat
  | .next _ | .forward _ => 1
  | .prev _ | .backward _ => 2

theorem call_tells (hs : s.Sound d b) (c : Call) :
    Tells d b s (s.reply d b c, s.call d b c) (c.target d b.text) := by
  cases c with
  | next p => exact next_spec hs p
  | prev p => exact prev_spec hs p
  | forward p => exact next_spec hs p
  | backward p => exact prev_spec hs p

theorem call_visited (hm : d.marker.head? ≠ some '\n') (hs : s.Sound d b) (c : Call) :
    (s.call d b c).visited ≤ s.visited + c.maxVisits := by
  cases c with
  | next p => exact next_visited hm hs p
  | prev p => exact prev_visited hm hs p
  | forward p => exact next_visited hm hs p
  | backward p => exact prev_visited hm hs p

/-- **A budget cuts a walk short and changes nothing else.**  Ask a scanner with a budget and one
    without the same things in turn.  A call after which the budget is not exceeded is answered with the
    same token by both; from the first call that exceeds it on there are only edges, and it stays
    exceeded.  A call ahead visits one line at most, and a call back two. -/
theorem limited_scans_cut_short (d : Dialect) (hm : d.marker.head? ≠ some '\n') (b : Buffer) (budget : Nat)
    (history : List Call) (c : Call) :
    let s := history.foldl (call d b) { budget := some budget }
    let u := history.foldl (call d b) {}
    ((s.call d b c).exhausted = false → s.reply d b c = u.reply d b c) ∧
    ((s.call d b c).exhausted = true → (s.reply d b c).isEdge ∧
      ∀ (later : List Call) (c' : Call), let s' := later.foldl (call d b) (s.call d b c)
        s'.exhausted = true ∧ (s'.reply d b c').isEdge) ∧
    (s.call d b c).visited ≤ s.visited + c.maxVisits ∧
    (u.call d b c).visited ≤ u.visited + c.maxVisits := by
  intro s u
  have hfresh : ∀ n, ({ budget := n } : Scanner).Sound d b := fun n => sound_of_none rfl
  have hs : s.Sound d b := (calls_follow (hfresh _) history).sound (hfresh _)
  have hu : u.Sound d b := (calls_follow (hfresh none) history).sound (hfresh none)
  have hlimited := call_tells hs c
  have hfree := (call_tells hu c).of_unlimited (calls_follow (hfresh none) history).budget
  refine ⟨fun hleft => ?_, fun hspent => ⟨?_, fun later c' => ?_⟩, call_visited hm hs c,
    call_visited hm hu c⟩
  · exact (hlimited.fst_eq hleft).trans hfree.1.symm
  · exact decide_eq_true (hlimited.edge hspent)
  · intro s'
    have hafter := hlimited.follows.sound hs
    have hlater : (s.call d b c).Follows d b s' := calls_follow hafter later
    have hspent' : s'.exhausted = true := hlater.exhausted hspent
    have hcall := call_tells (hlater.sound hafter) c'
    exact ⟨hspent', decide_eq_true (hcall.edge (hcall.follows.exhausted hspent'))⟩

/-- A look back from a comment line of its own takes two visits, and with one left it is cut short. -/
theorem limited_scans_cut_short_comment_line :
    let d : Dialect := {}
    let b := Buffer.ofText ['a', '\n', '#']
    let s := [Call.next 0].foldl (call d b) { budget := some 2 }
    d.marker.head? ≠ some '\n' ∧ (s.call d b (.prev 3)).exhausted = true ∧
      (s.reply d b (.prev 3)).isEdge ∧ (s.call d b (.prev 3)).visited ≤ s.visited + 2 := by
  intro d b s
  have hm : d.marker.head? ≠ some '\n' := by decide
  have hspent : (s.call d b (.prev 3)).exhausted = true := by decide +kernel
  obtain ⟨-, hedge, hvisited, -⟩ := limited_scans_cut_short d hm b 2 [.next 0] (.prev 3)
  exact ⟨hm, hspent, (hedge hspent).1, hvisited⟩

end Scanner

end BlockScript
