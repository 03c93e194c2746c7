/-
  The same walk over two buffers.

  In one of two buffers a stretch inside a line has become longer or shorter; their lines hold the same
  tokens otherwise, one by one, at the offsets that the change moves them to (`Twins`).  A walk over the
  first buffer then has a twin over the second:

  1. **Lines** (`Twins.lineAt`, `Twins.lineBefore`): an offset outside the stretch lies on the twin of its
     line.
  2. **Steps** (`next_twin`, `prev_twin`): a scanner that meets a token has a twin that meets the twin of
     the token, and spends no more of its budget.  Nothing is said of a step that meets the edge: with
     more of its budget left the twin might still find something.
  3. **Searches** (`closerAfter_twin`, `openerBefore_twin`): a search that ends at a token takes only
     steps that meet one, so its twin ends at the twin of that token.
  4. **Matches** (`findMatch_opener_twin`, `findMatch_closer_twin`): so the pair that is found from one of
     its two tokens is found again from the twin of that token.

  What the twins of tokens have in common is needed for the tokens that the search passes only: `floor`
  is an offset that it does not go below.
-/
import BlockScript.Proofs.ScanLimit
import BlockScript.Proofs.SearchSteps
import Mathlib.Data.List.Forall2

namespace BlockScript

/-! ## Offsets -/

/-- A stretch of a text that ends at `oldStop`, and at `newStop` once it has been changed. -/
structure Splice where
  start : Nat
  oldStop : Nat
  newStop : Nat
  old : start < oldStop
  new : start < newStop

namespace Splice

variable (g : Splice) {p q : Nat}

/-- The offset after the change. -/
def move (p : Nat) : Nat := if p < g.oldStop then p else p - g.oldStop + g.newStop

/-- Whether the offset does not lie inside the stretch. -/
def Outside (p : Nat) : Prop := p ≤ g.start ∨ g.oldStop ≤ p

theorem move_of_le (h : p ≤ g.start) : g.move p = p := by
  have := g.old
  rw [move, if_pos (by omega)]

theorem move_of_ge (h : g.oldStop ≤ p) : g.move p = p - g.oldStop + g.newStop := by
  rw [move, if_neg (by omega)]

variable {g}

/-- Outside the stretch the order of offsets stays. -/
theorem move_lt_iff (hp : g.Outside p) (hq : g.Outside q) : g.move p < g.move q ↔ p < q := by
  have := g.old
  have := g.new
  rcases hp with hp | hp <;> rcases hq with hq | hq
  · rw [g.move_of_le hp, g.move_of_le hq]
  · rw [g.move_of_le hp, g.move_of_ge hq]
    omega
  · rw [g.move_of_ge hp, g.move_of_le hq]
    omega
  · rw [g.move_of_ge hp, g.move_of_ge hq]
    omega

theorem move_le_iff (hp : g.Outside p) (hq : g.Outside q) : g.move p ≤ g.move q ↔ p ≤ q := by
  rw [← Nat.not_lt, ← Nat.not_lt, move_lt_iff hq hp]

end Splice

/-! ## Twin lines -/

/-- A token and what has become of it: it stands where the change has moved it. -/
structure Token.Moved (g : Splice) (x x' : Token) : Prop where
  start : x'.start = g.move x.start
  stop : x'.stop = g.move x.stop
  startOut : g.Outside x.start
  stopOut : g.Outside x.stop

/-- A line and what has become of it, its tokens related one by one. -/
structure TokenLine.Twin (g : Splice) (R : Token → Token → Prop) (l l' : TokenLine) : Prop where
  start : l'.start = g.move l.start
  stop : l'.stop = g.move l.stop
  startOut : g.Outside l.start
  stopOut : g.Outside l.stop
  tokens : List.Forall₂ R l.tokens l'.tokens

/-- Two buffers whose lines are twins. -/
structure Twins (d : Dialect) (g : Splice) (R : Token → Token → Prop) (b b' : Buffer) : Prop where
  moved : ∀ x x', R x x' → x.Moved g x'
  sizeOut : g.Outside b.size
  size : b'.size = g.move b.size
  line : ∀ q < b.size, (d.lineAt b q).Twin g R (d.lineAt b' (g.move (d.lineAt b q).start))

namespace Dialect

/-- The lines of a buffer do not overlap: the line that an offset lies on is the line of that offset. -/
theorem lineAt_eq_of_holds (d : Dialect) {b : Buffer} {p q : Nat} (hp : p < b.size)
    (h1 : (d.lineAt b q).start ≤ p) (h2 : p < (d.lineAt b q).stop) : d.lineAt b p = d.lineAt b q := by
  have hstop : (d.lineAt b q).stop =
      (b.text.lineAt q).1 + Text.size (Text.firstLine (b.text.lineAt q).2) := by
    simp only [lineAt, Piece.totalSize, d.pieces_text]
  have hsame := Text.lineAt_eq_of_holds (b.size_eq ▸ hp) h1 (hstop ▸ h2)
  simp only [lineAt, hsame]

/-- A token is one of its line. -/
theorem mem_lineAt (d : Dialect) {b : Buffer} {x : Token} (hx : x ∈ d.tokenize b.text) :
    x ∈ (d.lineAt b x.start).tokens := by
  have hp := d.start_lt_size hx
  obtain ⟨pre, post, heq, hpre, -, hpost⟩ := d.tokenize_around hp
  have hle := d.lineAt_start_le b x.start
  have hlt := d.lineAt_lt_stop hp
  rw [heq, List.mem_append, List.mem_append] at hx
  rcases hx with hx | hx | hx
  · have := hpre.bounds hx
    omega
  · exact hx
  · have := hpost.bounds hx
    omega

/-- Of two tokens one stops before the other starts. -/
theorem tokenize_disjoint (d : Dialect) {t : Text} {x y : Token} (hx : x ∈ d.tokenize t)
    (hy : y ∈ d.tokenize t) : x = y ∨ x.stop ≤ y.start ∨ y.stop ≤ x.start := by
  obtain ⟨pre, post, hsplit⟩ := List.append_of_mem hx
  obtain ⟨hpre, -, hpost⟩ := d.tokenize_apart hsplit
  rw [hsplit, List.mem_append, List.mem_cons] at hy
  rcases hy with hy | rfl | hy
  · exact .inr (.inr (hpre y hy).2)
  · exact .inl rfl
  · exact .inr (.inl (hpost y hy).1)

theorem mem_of_mem_lineAt (d : Dialect) {b : Buffer} {q : Nat} (hq : q < b.size) {x : Token}
    (hx : x ∈ (d.lineAt b q).tokens) : x ∈ d.tokenize b.text := by
  obtain ⟨pre, post, heq, -, -, -⟩ := d.tokenize_around hq
  rw [heq]
  exact List.mem_append_right _ (List.mem_append_left _ hx)

end Dialect

/-- Each of some tokens is related to one of their twins. -/
theorem exists_related {R : Token → Token → Prop} {ts ts' : List Token} (h : List.Forall₂ R ts ts')
    {x : Token} (hx : x ∈ ts) : ∃ x' ∈ ts', R x x' := by
  induction h with
  | nil => cases hx
  | @cons y y' ts ts' hy hts ih =>
    rcases List.mem_cons.1 hx with rfl | hx
    · exact ⟨y', List.mem_cons_self .., hy⟩
    · obtain ⟨x', hx', hR⟩ := ih hx
      exact ⟨x', List.mem_cons_of_mem _ hx', hR⟩

namespace Twins

variable {d : Dialect} {g : Splice} {R : Token → Token → Prop} {b b' : Buffer} {p : Nat}

theorem lt_size_iff (h : Twins d g R b b') (hp : g.Outside p) : g.move p < b'.size ↔ p < b.size := by
  rw [h.size, Splice.move_lt_iff hp h.sizeOut]

/-- An offset of a line outside the stretch lies on the twin of the line. -/
theorem lineAt_of_holds (h : Twins d g R b b') {q r : Nat} (hq : q < b.size) (hr : r < b'.size)
    (h1 : g.move (d.lineAt b q).start ≤ r) (h2 : r < g.move (d.lineAt b q).stop) :
    (d.lineAt b q).Twin g R (d.lineAt b' r) := by
  have htwin := h.line q hq
  rw [d.lineAt_eq_of_holds hr (by rwa [htwin.start]) (by rwa [htwin.stop])]
  exact htwin

/-- **The line of an offset is the twin of its line.** -/
theorem lineAt (h : Twins d g R b b') (hp : p < b.size) (hout : g.Outside p) :
    (d.lineAt b p).Twin g R (d.lineAt b' (g.move p)) := by
  have htwin := h.line p hp
  have hle := d.lineAt_start_le b p
  have hlt := d.lineAt_lt_stop hp
  refine h.lineAt_of_holds hp ((h.lt_size_iff hout).2 hp) ?_ ?_
  · exact (Splice.move_le_iff htwin.startOut hout).2 hle
  · exact (Splice.move_lt_iff hout htwin.stopOut).2 hlt

/-- The line that ends at an offset or reaches over it, likewise. -/
theorem lineBefore (h : Twins d g R b b') (hp : p ≤ b.size) (h0 : p ≠ 0) (hout : g.Outside p) :
    g.move p ≠ 0 ∧ (d.lineAt b (p - 1)).Twin g R (d.lineAt b' (g.move p - 1)) := by
  have hq : p - 1 < b.size := by omega
  have htwin := h.line (p - 1) hq
  have hle := d.lineAt_start_le b (p - 1)
  have hlt := d.lineAt_lt_stop hq
  have hstart := (Splice.move_lt_iff htwin.startOut hout).2 (show _ < p by omega)
  have hstop := (Splice.move_le_iff hout htwin.stopOut).2 (show p ≤ _ by omega)
  have hsize := (Splice.move_le_iff hout h.sizeOut).2 hp
  rw [← h.size] at hsize
  exact ⟨by omega, h.lineAt_of_holds hq (by omega) (by omega) (by omega)⟩

/-- A token has a twin. -/
theorem exists_twin (h : Twins d g R b b') {x : Token} (hx : x ∈ d.tokenize b.text) :
    ∃ x' ∈ d.tokenize b'.text, R x x' := by
  have hp := d.start_lt_size hx
  have htwin := h.line x.start hp
  have hmem := d.mem_lineAt hx
  have hle := d.lineAt_start_le b x.start
  obtain ⟨x', hx', hR⟩ := exists_related htwin.tokens hmem
  refine ⟨x', d.mem_of_mem_lineAt ?_ hx', hR⟩
  rw [h.lt_size_iff htwin.startOut]
  omega

end Twins

/-! ## Steps -/

/-- The second scanner has at least as much of the same budget left. -/
structure Scanner.Spares (s s' : Scanner) : Prop where
  budget : s'.budget = s.budget
  visited : s'.visited ≤ s.visited

namespace Scanner

variable {d : Dialect} {g : Splice} {R : Token → Token → Prop} {b b' : Buffer} {s s' : Scanner} {p : Nat}

theorem Spares.visit (h : s.Spares s') : s.visit.Spares s'.visit :=
  ⟨h.budget, Nat.succ_le_succ h.visited⟩

theorem Spares.not_exhausted (h : s.Spares s') (he : s.exhausted = false) : s'.exhausted = false := by
  unfold Scanner.exhausted at he ⊢
  rw [h.budget]
  cases hb : s.budget with
  | none => rfl
  | some n =>
    rw [hb] at he
    have := h.visited
    simp only [Option.any_some, decide_eq_false_iff_not, Nat.not_lt] at he ⊢
    omega

theorem Spares.lineAt (h : s.Spares s') (q q' : Nat) :
    (s.lineAt d b q).2.Spares (s'.lineAt d b' q').2 := by
  obtain ⟨h1, h2⟩ := s.lineAt_visited d b q
  obtain ⟨h1', h2'⟩ := s'.lineAt_visited d b' q'
  exact ⟨by rw [h1, h1', h.budget], by rw [h2, h2']; exact h.visited⟩

/-- The first of some tokens with a property has the first twin with it. -/
theorem find?_twin {ts ts' : List Token} (h : List.Forall₂ R ts ts') (f f' : Token → Bool)
    (hf : ∀ x x', R x x' → f' x' = f x) :
    ts.find? f = none ∧ ts'.find? f' = none ∨
      ∃ t t', ts.find? f = some t ∧ ts'.find? f' = some t' ∧ R t t' := by
  induction h with
  | nil => exact .inl ⟨rfl, rfl⟩
  | @cons x x' ts ts' hx hts ih =>
    rw [List.find?_cons, List.find?_cons, hf x x' hx]
    cases f x with
    | true => exact .inr ⟨x, x', rfl, rfl, hx⟩
    | false => exact ih

/-- **A step ahead that meets a token.** -/
theorem next_twin (h : Twins d g R b b') (hs : s.Sound d b) (hs' : s'.Sound d b') (hspare : s.Spares s')
    (hp : g.Outside p) (hk : (s.next d b p).1.kind ≠ .edge) :
    R (s.next d b p).1 (s'.next d b' (g.move p)).1 ∧
      (s.next d b p).2.Spares (s'.next d b' (g.move p)).2 := by
  induction hn : b.size - p using Nat.strongRecOn generalizing s s' p with
  | _ n ih =>
    rw [next] at hk ⊢
    rw [next]
    split at hk
    case isFalse => exact absurd rfl hk
    case isTrue hlt =>
      have hlt' := (h.lt_size_iff hp).2 hlt
      rw [dif_pos hlt, dif_pos hlt']
      split at hk
      case isTrue => exact absurd rfl hk
      case isFalse he =>
        have he' := hspare.visit.not_exhausted (Bool.eq_false_iff.2 he)
        rw [if_neg he, if_neg (Bool.eq_false_iff.1 he')]
        obtain ⟨hline, hfollows, -⟩ := lineAt_spec ((visit_follows s).sound hs) hlt
        obtain ⟨hline', hfollows', -⟩ := lineAt_spec ((visit_follows s').sound hs') hlt'
        have htwin := h.lineAt hlt hp
        have hstop : ∀ x x', R x x' → decide (g.move p < x'.stop) = decide (p < x.stop) := by
          intro x x' hx
          obtain ⟨-, hstop, -, hout⟩ := h.moved x x' hx
          rw [hstop, decide_eq_decide, Splice.move_lt_iff hp hout]
        simp only [hline] at hk ⊢
        simp only [hline']
        rcases find?_twin htwin.tokens _ _ hstop with ⟨hnone, hnone'⟩ | ⟨t, t', hsome, hsome', ht⟩
        · -- nothing on this line: both go on at its end
          simp only [hnone] at hk ⊢
          simp only [hnone', htwin.stop]
          have hlt := d.lineAt_lt_stop hlt
          exact ih _ (by omega) (hfollows.sound ((visit_follows s).sound hs))
            (hfollows'.sound ((visit_follows s').sound hs')) (hspare.visit.lineAt p (g.move p))
            htwin.stopOut hk rfl
        · simp only [hsome, hsome']
          exact ⟨ht, hspare.visit.lineAt p (g.move p)⟩

theorem prevWithin_twin (h : Twins d g R b b') (hs : s.Sound d b) (hs' : s'.Sound d b')
    (hspare : s.Spares s') (hsize : p ≤ b.size) (hp : g.Outside p)
    (hk : (s.prevWithin d b p).1.kind ≠ .edge) :
    R (s.prevWithin d b p).1 (s'.prevWithin d b' (g.move p)).1 ∧
      (s.prevWithin d b p).2.Spares (s'.prevWithin d b' (g.move p)).2 := by
  induction p using Nat.strongRecOn generalizing s s' with
  | _ p ih =>
    rw [prevWithin] at hk ⊢
    rw [prevWithin]
    split at hk
    case isTrue => exact absurd rfl hk
    case isFalse h0 =>
      obtain ⟨h0', htwin⟩ := h.lineBefore hsize h0 hp
      rw [dif_neg h0, dif_neg h0']
      split at hk
      case isTrue => exact absurd rfl hk
      case isFalse he =>
        have he' := hspare.visit.not_exhausted (Bool.eq_false_iff.2 he)
        have hmove := (Splice.move_le_iff hp h.sizeOut).2 hsize
        rw [← h.size] at hmove
        rw [if_neg he, if_neg (Bool.eq_false_iff.1 he')]
        obtain ⟨hline, hfollows, -⟩ := lineAt_spec ((visit_follows s).sound hs) (p := p - 1) (by omega)
        obtain ⟨hline', hfollows', -⟩ :=
          lineAt_spec ((visit_follows s').sound hs') (p := g.move p - 1) (by omega)
        have hstart : ∀ x x', R x x' → decide (x'.start < g.move p) = decide (x.start < p) := by
          intro x x' hx
          obtain ⟨hstart, -, hout, -⟩ := h.moved x x' hx
          rw [hstart, decide_eq_decide, Splice.move_lt_iff hout hp]
        simp only [hline] at hk ⊢
        simp only [hline']
        rcases find?_twin (List.forall₂_reverse_iff.2 htwin.tokens) _ _ hstart with
          ⟨hnone, hnone'⟩ | ⟨t, t', hsome, hsome', ht⟩
        · -- nothing on this line: both go on at its start
          simp only [hnone] at hk ⊢
          simp only [hnone', htwin.start]
          have hle := d.lineAt_start_le b (p - 1)
          exact ih _ (by omega) (hfollows.sound ((visit_follows s).sound hs))
            (hfollows'.sound ((visit_follows s').sound hs')) (hspare.visit.lineAt (p - 1) (g.move p - 1))
            (by omega) htwin.startOut hk
        · simp only [hsome, hsome']
          exact ⟨ht, hspare.visit.lineAt (p - 1) (g.move p - 1)⟩

/-- **A step back that meets a token.** -/
theorem prev_twin (h : Twins d g R b b') (hs : s.Sound d b) (hs' : s'.Sound d b') (hspare : s.Spares s')
    (hsize : p ≤ b.size) (hp : g.Outside p) (hk : (s.prev d b p).1.kind ≠ .edge) :
    R (s.prev d b p).1 (s'.prev d b' (g.move p)).1 ∧
      (s.prev d b p).2.Spares (s'.prev d b' (g.move p)).2 := by
  have hsize' := (Splice.move_le_iff hp h.sizeOut).2 hsize
  rw [← h.size] at hsize'
  rw [prev, Nat.min_eq_left hsize] at hk ⊢
  rw [prev, Nat.min_eq_left hsize']
  exact prevWithin_twin h hs hs' hspare hsize hp hk

/-- Asked at its start a token is met with one visit. -/
theorem next_start (hs : s.Sound d b) {x : Token} (hx : x ∈ d.tokenize b.text)
    (he : s.visit.exhausted = false) :
    (s.next d b x.start).1 = x ∧ (s.next d b x.start).2.visited = s.visited + 1 := by
  have hp := d.start_lt_size hx
  obtain ⟨hline, -, -⟩ := lineAt_spec ((visit_follows s).sound hs) hp
  obtain ⟨pre, post, hsplit⟩ := List.append_of_mem hx
  have hgap : d.Gap b.text x.start pre.reverse (x :: post) :=
    .of_start (by rw [List.reverse_reverse]; exact hsplit)
  cases hfind : (d.lineAt b x.start).tokens.find? (x.start < ·.stop) with
  | none =>
    have := (d.tokenize_laid b.text).bounds hx
    have hnot := List.find?_eq_none.1 hfind x (d.mem_lineAt hx)
    simp only [decide_eq_true_eq] at hnot
    omega
  | some t =>
    have ht := d.tokenAfter_of_found hp hfind
    rw [hgap.tokenAfter, List.head?_cons, Option.getD_some] at ht
    rw [next, dif_pos hp, if_neg (Bool.eq_false_iff.1 he)]
    simp only [hline, hfind]
    exact ⟨ht.symm, (s.visit.lineAt_visited d b x.start).2⟩

/-- To meet a token takes a visit. -/
theorem next_spends (hs : s.Sound d b) (hk : (s.next d b p).1.kind ≠ .edge) :
    s.visit.exhausted = false ∧ s.visited + 1 ≤ (s.next d b p).2.visited := by
  rw [next] at hk ⊢
  split at hk
  case isFalse => exact absurd rfl hk
  case isTrue hlt =>
    rw [dif_pos hlt]
    split at hk
    case isTrue => exact absurd rfl hk
    case isFalse he =>
      rw [if_neg he]
      refine ⟨Bool.eq_false_iff.2 he, ?_⟩
      have hvisited := (s.visit.lineAt_visited d b p).2
      dsimp only
      split
      · rw [hvisited]
        exact Nat.le_refl _
      · have hfollows := (lineAt_spec ((visit_follows s).sound hs) hlt).2.1
        have hrest := (next_spec (hfollows.sound ((visit_follows s).sound hs))
          (s.visit.lineAt d b p).1.stop).follows.visited
        rw [hvisited] at hrest
        exact hrest

/-- **A token met once is met again**: its twin is met where it starts, with no more visits. -/
theorem next_again (h : Twins d g R b b') (hs : s.Sound d b) (hs' : s'.Sound d b') (hspare : s.Spares s')
    (hk : (s.next d b p).1.kind ≠ .edge) :
    R (s.next d b p).1 (s'.next d b' (g.move (s.next d b p).1.start)).1 ∧
      (s.next d b p).2.Spares (s'.next d b' (g.move (s.next d b p).1.start)).2 := by
  obtain ⟨hleft, hspent⟩ := next_spends hs hk
  obtain ⟨t', ht', hR⟩ := h.exists_twin (next_mem hs hk)
  obtain ⟨hmet, hvisited⟩ := next_start hs' ht' (hspare.visit.not_exhausted hleft)
  rw [← (h.moved _ _ hR).start, hmet]
  refine ⟨hR, ?_, ?_⟩
  · rw [(next_spec hs p).follows.budget, (next_spec hs' t'.start).follows.budget, hspare.budget]
  · have := hspare.visited
    omega

end Scanner

/-! ## Searches -/

/-- Whether two tokens count alike for who closes whom. -/
structure Profile.Alike (P : Profile) (x x' : Token) : Prop where
  kind : x'.kind = x.kind
  family : x.kind = .endThing → P.endFamily x'.nameText = P.endFamily x.nameText

namespace Profile

variable {P : Profile} {g : Splice} {R : Token → Token → Prop} {b b' : Buffer} {s s' : Scanner} {p : Nat}
  {o c t t' : Token} {w w' : Walk} {pending pending' : List Token}

theorem Alike.accepts {o' c' : Token} (ho : P.Alike o o') (hc : P.Alike c c') :
    P.accepts o' c' = P.accepts o c := by
  rw [Profile.accepts, Profile.accepts, ho.kind, hc.kind]
  by_cases hk : c.kind = .endThing
  · rw [hc.family hk]
  · simp [hk]

/-- Taking from twin stacks leaves twin stacks. -/
theorem popFirst_alike (h : List.Forall₂ P.Alike pending pending') (f f' : Token → Bool)
    (hf : ∀ x x', P.Alike x x' → f' x' = f x) :
    popFirst f pending = none ∧ popFirst f' pending' = none ∨
      ∃ r r', popFirst f pending = some r ∧ popFirst f' pending' = some r' ∧
        List.Forall₂ P.Alike r.2 r'.2 := by
  induction h with
  | nil => exact .inl ⟨rfl, rfl⟩
  | @cons x x' xs xs' hx hxs ih =>
    rw [popFirst, popFirst, hf x x' hx]
    cases f x with
    | true => exact .inr ⟨(x, xs), (x', xs'), rfl, rfl, hxs⟩
    | false => exact ih

theorem isEmpty_alike (h : List.Forall₂ P.Alike pending pending') : pending.isEmpty = pending'.isEmpty := by
  cases h with
  | nil => rfl
  | cons _ _ => rfl

theorem meet_alike (h : List.Forall₂ P.Alike w.pending w'.pending) (ht : P.Alike t t') (role : Role) :
    List.Forall₂ P.Alike (P.meet w role t).1.pending (P.meet w' role t').1.pending := by
  cases role with
  | closer => exact .cons ht h
  | opener =>
    rcases popFirst_alike h (P.accepts t) (P.accepts t') fun x x' hx => ht.accepts hx with
      ⟨hnone, hnone'⟩ | ⟨r, r', hsome, hsome', hrest⟩
    · rw [meet_leaves hnone, meet_leaves hnone']
      exact h
    · rw [meet_takes hsome, meet_takes hsome']
      exact hrest
  | inner => exact h
  | neutral => exact h

/-- The step ahead of a search and that of its twin: both end the search, or both go on with twin stacks. -/
theorem ahead_alike (s s' : Scanner) (h : List.Forall₂ P.Alike pending pending') (ht : P.Alike t t')
    (role : Role) :
    P.ahead s pending role t = .inr (some t, s) ∧ P.ahead s' pending' role t' = .inr (some t', s') ∨
      ∃ rest rest', P.ahead s pending role t = .inl (s, rest, t.stop) ∧
        P.ahead s' pending' role t' = .inl (s', rest', t'.stop) ∧ List.Forall₂ P.Alike rest rest' := by
  cases role with
  | opener => exact .inr ⟨_, _, rfl, rfl, .cons ht h⟩
  | inner => exact .inr ⟨_, _, rfl, rfl, h⟩
  | neutral => exact .inr ⟨_, _, rfl, rfl, h⟩
  | closer =>
    rw [ahead, ahead]
    rcases popFirst_alike h (P.accepts · t) (P.accepts · t') fun x x' hx => hx.accepts ht with
      ⟨hnone, hnone'⟩ | ⟨⟨z, rest⟩, ⟨z', rest'⟩, hsome, hsome', hrest⟩
    · rw [hnone, hnone']
      exact .inr ⟨_, _, rfl, rfl, h⟩
    · rw [hsome, hsome']
      cases hrest with
      | nil => exact .inl ⟨rfl, rfl⟩
      | cons hx hxs => exact .inr ⟨_, _, rfl, rfl, .cons hx hxs⟩

/-- A token that starts behind `o` has one before it that does not stop before `o` starts. -/
theorem tokenBefore_floor (ht : t ∈ P.dialect.tokenize b.text) (ho : o ∈ P.dialect.tokenize b.text)
    (hlt : o.start < t.start) :
    (P.dialect.tokenBefore b.text t.start).kind ≠ .edge ∧
      o.start < (P.dialect.tokenBefore b.text t.start).stop := by
  obtain ⟨pre, post, hsplit⟩ := List.append_of_mem ht
  have hsplit' : P.dialect.tokenize b.text = pre.reverse.reverse ++ t :: post := by
    rw [List.reverse_reverse, hsplit]
  obtain ⟨-, ht, hpost⟩ := P.dialect.tokenize_apart hsplit
  have homem : o ∈ pre.reverse := by
    rw [hsplit, List.mem_append, List.mem_cons] at ho
    rcases ho with ho | rfl | ho
    · exact List.mem_reverse.2 ho
    · omega
    · have := hpost o ho
      omega
  rw [(Dialect.Cut.of_start hsplit').tokenBefore]
  cases hrev : pre.reverse with
  | nil => simp [hrev] at homem
  | cons u rev =>
    rw [hrev] at homem hsplit'
    have hu : u ∈ P.dialect.tokenize b.text := by simp [hsplit']
    refine ⟨P.dialect.tokenize_ne_edge b.text u hu, ?_⟩
    show o.start < u.stop
    have hsplit'' : P.dialect.tokenize b.text = rev.reverse ++ u :: (t :: post) := by simp [hsplit']
    obtain ⟨hrest, hself, -⟩ := P.dialect.tokenize_apart hsplit''
    rcases List.mem_cons.1 homem with rfl | hmem
    · exact hself
    · have := hrest o (List.mem_reverse.2 hmem)
      omega

/-- What the twins of the tokens from `o` on have in common. -/
structure Carries (P : Profile) (g : Splice) (R : Token → Token → Prop) (b b' : Buffer) (o : Token) :
    Prop extends Twins P.dialect g R b b' where
  floor : o ∈ P.dialect.tokenize b.text
  alike : ∀ x x', R x x' → o.start < x.stop → P.Alike x x'

/-- **The role of a token behind `o` is the role of its twin.** -/
theorem roleInContext_twin (h : P.Carries g R b b' o) (hs : s.Sound P.dialect b)
    (hs' : s'.Sound P.dialect b') (hspare : s.Spares s') (ht : R t t')
    (hmem : t ∈ P.dialect.tokenize b.text) (hfloor : o.start < t.stop)
    (hbehind : t.kind = .ifBlock → o.start < t.start)
    (hn : (P.roleInContext b s t).2.exhausted = false) :
    (P.roleInContext b' s' t').1 = (P.roleInContext b s t).1 ∧
      (P.roleInContext b s t).2.Spares (P.roleInContext b' s' t').2 := by
  have hkind := (h.alike t t' ht hfloor).kind
  by_cases hk : t.kind = .ifBlock
  · have hk' : t'.kind = .ifBlock := hkind.trans hk
    rw [roleInContext_ifBlock hk, continuesIf_ifBlock hk] at hn ⊢
    rw [roleInContext_ifBlock hk', continuesIf_ifBlock hk', (h.moved t t' ht).start]
    have hsize := P.dialect.start_lt_size hmem
    obtain ⟨hedge, hbefore⟩ := tokenBefore_floor hmem h.floor (hbehind hk)
    have hprev := Scanner.prev_spec hs t.start
    have heq := hprev.fst_eq hn
    obtain ⟨hu, hleft⟩ := Scanner.prev_twin h.toTwins hs hs' hspare (Nat.le_of_lt hsize)
      (h.moved t t' ht).startOut (by rwa [heq])
    have hsame := (h.alike _ _ hu (by rwa [heq])).kind
    exact ⟨by simp only [hsame, hkind], hleft⟩
  · rw [roleInContext_other hk, roleInContext_other (by rwa [hkind])]
    exact ⟨by rw [hkind], hspare⟩

/-- Only the look back from an `if` can use up the budget, and an `if` closes nothing. -/
theorem roleInContext_spent (hleft : s.exhausted = false) (he : (P.roleInContext b s t).2.exhausted = true) :
    (P.roleInContext b s t).1 = .inner ∨ (P.roleInContext b s t).1 = .opener := by
  have hif := kind_eq_ifBlock_of_spent hleft he
  have hopener : t.kind.role = .opener := by rw [hif, TokenKind.role_eq]
  rw [roleInContext_ifBlock hif, hopener]
  dsimp only
  split
  · exact .inl rfl
  · exact .inr rfl

/-- A search that finds a closer has budget left when it knows the role of the token it meets. -/
theorem ahead_left (hs : s.Sound P.dialect b) (hleft : s.exhausted = false)
    (hfound : ((P.ahead (P.roleInContext b s t).2 pending (P.roleInContext b s t).1 t).elim
      (fun r => P.closerAfter b r.1 r.2.1 r.2.2) id).1 = some c) :
    (P.roleInContext b s t).2.exhausted = false := by
  refine Bool.eq_false_iff.2 fun he => ?_
  rcases P.ahead_cases (P.roleInContext b s t).2 pending (P.roleInContext b s t).1 t with
    ⟨-, hcloser, -⟩ | ⟨pending', hahead, -⟩
  · rcases roleInContext_spent hleft he with hrole | hrole <;> simp [hrole] at hcloser
  · have hnone := closerAfter_spent ((roleInContext_follows hs t).sound hs) he pending' t.stop
    rw [hahead] at hfound
    exact absurd (hnone.symm.trans hfound) nofun

/-- A closer that is found stands behind the offset, and the bottom of the open openers accepts it. -/
theorem closerAfter_found (hs : s.Sound P.dialect b) (hbottom : pending.getLast? = some o)
    (hfound : (P.closerAfter b s pending p).1 = some c) :
    c ∈ P.dialect.tokenize b.text ∧ p < c.stop ∧ P.accepts o c := by
  refine (P.closerSearch b).keeps (s := (s, pending, p))
    (I := fun s => s.1.Sound P.dialect b ∧ s.2.1.getLast? = some o ∧ p ≤ s.2.2)
    (J := fun r => ∀ c, r.1 = some c → c ∈ P.dialect.tokenize b.text ∧ p < c.stop ∧ P.accepts o c)
    ?_ ⟨hs, hbottom, Nat.le_refl p⟩ c hfound
  rintro ⟨s, pending, q⟩ ⟨hs, hbottom, hq⟩
  dsimp only [closerSearch] at hs hbottom hq ⊢
  split
  case isTrue =>
    intro c hc
    cases hc
  case isFalse hk =>
    obtain ⟨hlt, -⟩ := s.lt_stop_of_next P.dialect b q hk
    have hmem := Scanner.next_mem hs hk
    have hsound := (Scanner.next_spec hs q).follows.sound hs
    have hsound' := (roleInContext_follows hsound (s.next P.dialect b q).1).sound hsound
    generalize P.roleInContext b (s.next P.dialect b q).2 (s.next P.dialect b q).1 = r at hsound' ⊢
    rcases P.ahead_cases r.2 pending r.1 (s.next P.dialect b q).1 with
      ⟨hahead, -, above, o', rfl, haccepts⟩ | ⟨rest, hahead, hbottom'⟩
    · rw [hahead]
      intro c hc
      cases hc
      rw [List.getLast?_append, List.getLast?_singleton, Option.some_or] at hbottom
      obtain rfl := Option.some.inj hbottom
      exact ⟨hmem, by omega, haccepts⟩
    · rw [hahead]
      exact ⟨hsound', hbottom' o hbottom, show p ≤ (s.next P.dialect b q).1.stop by omega⟩

/-- An opener that is found stands before the offset. -/
theorem openerBefore_found (hs : s.Sound P.dialect b) (hfound : (P.openerBefore b s w p).1 = some o) :
    o ∈ P.dialect.tokenize b.text ∧ o.start < p := by
  refine (P.openerSearch b).keeps (s := (s, w, p)) (I := fun s => s.1.Sound P.dialect b ∧ s.2.2 ≤ p)
    (J := fun r => ∀ o, r.1 = some o → o ∈ P.dialect.tokenize b.text ∧ o.start < p)
    ?_ ⟨hs, Nat.le_refl p⟩ o hfound
  rintro ⟨s, w, q⟩ ⟨hs, hq⟩
  dsimp only [openerSearch] at hs hq ⊢
  rw [back_apply fun r => (openerTurn r).elim _ _]
  dsimp only
  split
  case isTrue =>
    intro o ho
    cases ho
  case isFalse hk =>
    have hlt := s.start_lt_of_prev P.dialect b q hk
    have hsound := (Scanner.prev_spec hs q).follows.sound hs
    have hsound' := (roleInContext_follows hsound (s.prev P.dialect b q).1).sound hsound
    dsimp only [openerTurn, Option.elim_some]
    split
    · intro o ho
      cases ho
      exact ⟨Scanner.prev_mem hs hk, by omega⟩
    · exact ⟨hsound', show (s.prev P.dialect b q).1.start ≤ p by omega⟩

/-- **A search for a closer behind `o` that finds one**: its twin finds the twin of that closer. -/
theorem closerAfter_twin (h : P.Carries g R b b' o) (hs : s.Sound P.dialect b)
    (hs' : s'.Sound P.dialect b') (hspare : s.Spares s') (hpend : List.Forall₂ P.Alike pending pending')
    (hp : g.Outside p) (hbehind : o.stop ≤ p) (hfound : (P.closerAfter b s pending p).1 = some c) :
    ∃ c', (P.closerAfter b' s' pending' (g.move p)).1 = some c' ∧ R c c' := by
  induction hn : b.size - p using Nat.strongRecOn generalizing s s' pending pending' p with
  | _ n ih =>
    rw [closerAfter_ahead] at hfound ⊢
    dsimp only at hfound ⊢
    by_cases hk : (s.next P.dialect b p).1.kind = .edge
    · rw [if_pos hk] at hfound
      cases hfound
    · rw [if_neg hk] at hfound
      obtain ⟨hlt, hsize⟩ := s.lt_stop_of_next P.dialect b p hk
      obtain ⟨ht, hleft⟩ := Scanner.next_twin h.toTwins hs hs' hspare hp hk
      have hmem := Scanner.next_mem hs hk
      have hnext := Scanner.next_spec hs p
      have hsound := hnext.follows.sound hs
      have hsound' := (Scanner.next_spec hs' (g.move p)).follows.sound hs'
      have hleftover := Bool.eq_false_iff.2 fun he => hk (hnext.edge he)
      generalize s.next P.dialect b p = r at *
      generalize s'.next P.dialect b' (g.move p) = r' at *
      -- the token met does not stop before `o` starts, so it counts as its twin does
      obtain ⟨-, hself, -⟩ := (P.dialect.tokenize_laid b.text).bounds h.floor
      have hstart : o.stop ≤ r.1.start := by
        rcases P.dialect.tokenize_disjoint h.floor hmem with rfl | hle | hle <;> omega
      have hfloor : o.start < r.1.stop := by omega
      have halike := h.alike _ _ ht hfloor
      rw [if_neg (by rwa [halike.kind])]
      have hq := ahead_left hsound hleftover hfound
      obtain ⟨hrole, hleft'⟩ := roleInContext_twin h hsound hsound' hleft ht hmem hfloor
        (fun _ => by omega) hq
      have hqs := (roleInContext_follows hsound r.1).sound hsound
      have hqs' := (roleInContext_follows hsound' r'.1).sound hsound'
      rw [hrole]
      generalize P.roleInContext b r.2 r.1 = q at *
      generalize P.roleInContext b' r'.2 r'.1 = q' at *
      rcases ahead_alike q.2 q'.2 hpend halike q.1 with
        ⟨hends, hends'⟩ | ⟨rest, rest', hgoes, hgoes', hrest⟩
      · rw [hends] at hfound
        rw [hends']
        cases hfound
        exact ⟨r'.1, rfl, ht⟩
      · rw [hgoes] at hfound
        rw [hgoes', (h.moved _ _ ht).stop]
        exact ih _ (by omega) hqs hqs' hleft' hrest (h.moved _ _ ht).stopOut (by omega) hfound rfl

/-- A search that finds an opener other than an `if` has budget left when it knows the role of the token it
    meets. -/
theorem meet_left (hs : s.Sound P.dialect b) (hleft : s.exhausted = false) (hkind : o.kind ≠ .ifBlock)
    (hfound : (if (P.meet w (P.roleInContext b s t).1 t).1.pending.isEmpty
      then (some t, (P.roleInContext b s t).2)
      else P.openerBefore b (P.roleInContext b s t).2 (P.meet w (P.roleInContext b s t).1 t).1 t.start).1 =
        some o) :
    (P.roleInContext b s t).2.exhausted = false := by
  refine Bool.eq_false_iff.2 fun he => ?_
  have hif := kind_eq_ifBlock_of_spent hleft he
  split at hfound
  · cases hfound
    exact hkind hif
  · rw [openerBefore_spent ((roleInContext_follows hs t).sound hs) he] at hfound
    cases hfound

/-- **A search for an opener that finds `o`**: its twin finds the twin of `o`. -/
theorem openerBefore_twin (h : P.Carries g R b b' o) (hs : s.Sound P.dialect b)
    (hs' : s'.Sound P.dialect b') (hspare : s.Spares s')
    (hpend : List.Forall₂ P.Alike w.pending w'.pending) (hsize : p ≤ b.size) (hp : g.Outside p)
    (hkind : o.kind ≠ .ifBlock) (hfound : (P.openerBefore b s w p).1 = some o) :
    ∃ o', (P.openerBefore b' s' w' (g.move p)).1 = some o' ∧ R o o' := by
  induction p using Nat.strongRecOn generalizing s s' w w' with
  | _ p ih =>
    rw [openerBefore_eq] at hfound ⊢
    dsimp only at hfound ⊢
    by_cases hk : (s.prev P.dialect b p).1.kind = .edge
    · rw [if_pos hk] at hfound
      cases hfound
    · rw [if_neg hk] at hfound
      have hlt := s.start_lt_of_prev P.dialect b p hk
      obtain ⟨ht, hleft⟩ := Scanner.prev_twin h.toTwins hs hs' hspare hsize hp hk
      have hmem := Scanner.prev_mem hs hk
      have hprev := Scanner.prev_spec hs p
      have hsound := hprev.follows.sound hs
      have hsound' := (Scanner.prev_spec hs' (g.move p)).follows.sound hs'
      have hleftover := Bool.eq_false_iff.2 fun he => hk (hprev.edge he)
      generalize s.prev P.dialect b p = r at *
      generalize s'.prev P.dialect b' (g.move p) = r' at *
      have hqs := (roleInContext_follows hsound r.1).sound hsound
      -- the token met is `o`, or `o` stands before it
      have hwhere : r.1 = o ∨ o.start < r.1.start := by
        split at hfound
        · exact .inl (Option.some.inj hfound)
        · exact .inr (openerBefore_found hqs hfound).2
      obtain ⟨-, hself, -⟩ := (P.dialect.tokenize_laid b.text).bounds hmem
      have hfloor : o.start < r.1.stop := by
        rcases hwhere with rfl | hwhere <;> omega
      have hbehind : r.1.kind = .ifBlock → o.start < r.1.start := by
        intro hif
        refine hwhere.resolve_left ?_
        rintro rfl
        exact hkind hif
      have halike := h.alike _ _ ht hfloor
      rw [if_neg (by rwa [halike.kind])]
      have hq := meet_left hsound hleftover hkind hfound
      obtain ⟨hrole, hleft'⟩ := roleInContext_twin h hsound hsound' hleft ht hmem hfloor hbehind hq
      have hqs' := (roleInContext_follows hsound' r'.1).sound hsound'
      rw [hrole, (h.moved _ _ ht).start]
      generalize P.roleInContext b r.2 r.1 = q at *
      generalize P.roleInContext b' r'.2 r'.1 = q' at *
      have hmeet := meet_alike hpend halike q.1
      rw [← isEmpty_alike hmeet]
      split at hfound
      case isTrue hempty =>
        rw [if_pos hempty]
        cases hfound
        exact ⟨r'.1, rfl, ht⟩
      case isFalse hempty =>
        rw [if_neg hempty]
        have hle : r.1.start ≤ b.size := by omega
        exact ih _ hlt hqs hqs' hleft' hmeet hle (h.moved _ _ ht).startOut hfound

/-! ## Matches -/

/-- The match of an opener that continues no `if`. -/
theorem findMatch_opener (hrole : (P.classify b p).kind.role = .opener)
    (hif : (P.classify b p).kind ≠ .ifBlock) :
    P.findMatch b p = (P.closerAfter b (P.scanner.next P.dialect b p).2 [P.classify b p]
      (P.classify b p).stop).1.map (⟨P.classify b p, ·⟩) := by
  have helse : (P.classify b p).kind ≠ .elseLine := by
    intro hk
    rw [hk, TokenKind.role_eq] at hrole
    cases hrole
  have hcont : P.continuesIf b (P.scanner.next P.dialect b p).2 (P.scanner.next P.dialect b p).1 =
      (false, (P.scanner.next P.dialect b p).2) := continuesIf_other hif helse
  rw [findMatch_of_role hrole]
  dsimp only
  rw [hcont]
  rfl

/-- The match of a closer. -/
theorem findMatch_closer (hrole : (P.classify b p).kind.role = .closer) :
    P.findMatch b p = (P.openerBefore b (P.scanner.next P.dialect b p).2 { pending := [P.classify b p] }
      (P.classify b p).start).1.map (⟨·, P.classify b p⟩) := by
  have hne : ∀ k : TokenKind, k.role ≠ .closer → (P.classify b p).kind ≠ k := by
    rintro k hk rfl
    exact hk hrole
  have hif : (P.classify b p).kind ≠ .ifBlock := hne _ (by rw [TokenKind.role_eq]; simp)
  have helse : (P.classify b p).kind ≠ .elseLine := hne _ (by rw [TokenKind.role_eq]; simp)
  have hblock : (P.classify b p).kind ≠ .elseBlock := hne _ (by rw [TokenKind.role_eq]; simp)
  have hcont : P.continuesIf b (P.scanner.next P.dialect b p).2 (P.scanner.next P.dialect b p).1 =
      (false, (P.scanner.next P.dialect b p).2) := continuesIf_other hif helse
  rw [findMatch_of_role hrole]
  dsimp only
  rw [hcont, if_neg (show ¬(P.scanner.next P.dialect b p).1.kind = .elseBlock from hblock)]
  rfl

theorem classify_ne_edge (hrole : (P.classify b p).kind.role ≠ .neutral) :
    (P.scanner.next P.dialect b p).1.kind ≠ .edge := by
  intro hk
  rw [show (P.classify b p).kind = .edge from hk, TokenKind.role_eq] at hrole
  exact hrole rfl

/-- A token with a role is a token of the script. -/
theorem classify_mem (hrole : (P.classify b p).kind.role ≠ .neutral) :
    P.classify b p ∈ P.dialect.tokenize b.text :=
  Scanner.next_mem (P.scanner_sound b) (classify_ne_edge hrole)

/-- A token with a role has its twin where it is moved to. -/
theorem classify_twin (h : Twins P.dialect g R b b') (hrole : (P.classify b p).kind.role ≠ .neutral)
    (hclass : P.classify b p = t) :
    R t (P.classify b' (g.move t.start)) ∧
      (P.scanner.next P.dialect b p).2.Spares (P.scanner.next P.dialect b' (g.move t.start)).2 := by
  subst hclass
  exact Scanner.next_again h (P.scanner_sound b) (P.scanner_sound b') ⟨rfl, Nat.le_refl _⟩
    (classify_ne_edge hrole)

/-- The pair that is found from its opener. -/
theorem findMatch_opener_found (hrole : (P.classify b p).kind.role = .opener)
    (hif : (P.classify b p).kind ≠ .ifBlock) (hfound : P.findMatch b p = some ⟨o, c⟩) :
    P.classify b p = o ∧ c ∈ P.dialect.tokenize b.text ∧ o.stop ≤ c.start ∧ P.accepts o c := by
  have hmem := classify_mem (P := P) (b := b) (p := p) (by rw [hrole]; simp)
  have hs := (Scanner.next_spec (P.scanner_sound b) p).follows.sound (P.scanner_sound b)
  rw [findMatch_opener hrole hif, Option.map_eq_some_iff] at hfound
  obtain ⟨c', hc', heq⟩ := hfound
  cases heq
  obtain ⟨hc, hstop, haccepts⟩ := closerAfter_found hs rfl hc'
  obtain ⟨-, hlt, -⟩ := (P.dialect.tokenize_laid b.text).bounds hmem
  refine ⟨rfl, hc, ?_, haccepts⟩
  rcases P.dialect.tokenize_disjoint hmem hc with heq | hle | hle
  · rw [heq] at hstop
    omega
  · exact hle
  · omega

/-- The pair that is found from its closer. -/
theorem findMatch_closer_found (hrole : (P.classify b p).kind.role = .closer)
    (hfound : P.findMatch b p = some ⟨o, c⟩) :
    P.classify b p = c ∧ o ∈ P.dialect.tokenize b.text ∧ o.start < c.start := by
  have hs := (Scanner.next_spec (P.scanner_sound b) p).follows.sound (P.scanner_sound b)
  rw [findMatch_closer hrole, Option.map_eq_some_iff] at hfound
  obtain ⟨o', ho', heq⟩ := hfound
  cases heq
  exact ⟨rfl, openerBefore_found hs ho'⟩

/-- **A pair found from its opener** is found from the opener's twin. -/
theorem findMatch_opener_twin (h : P.Carries g R b b' o) (hrole : (P.classify b p).kind.role = .opener)
    (hif : (P.classify b p).kind ≠ .ifBlock) (hfound : P.findMatch b p = some ⟨o, c⟩) :
    ∃ o' c', R o o' ∧ R c c' ∧ P.classify b' (g.move o.start) = o' ∧
      P.findMatch b' (g.move o.start) = some ⟨o', c'⟩ := by
  have hs := P.scanner_sound b
  have hs' := P.scanner_sound b'
  obtain ⟨hclass, -, -, -⟩ := findMatch_opener_found hrole hif hfound
  obtain ⟨hR, hspare⟩ := classify_twin h.toTwins (by rw [hrole]; simp) hclass
  rw [findMatch_opener hrole hif, hclass, Option.map_eq_some_iff] at hfound
  obtain ⟨c', hc', heq⟩ := hfound
  cases heq
  obtain ⟨-, hlt, -⟩ := (P.dialect.tokenize_laid b.text).bounds h.floor
  have halike := h.alike _ _ hR hlt
  obtain ⟨c', hfound', hRc⟩ := closerAfter_twin h ((Scanner.next_spec hs p).follows.sound hs)
    ((Scanner.next_spec hs' (g.move o.start)).follows.sound hs') hspare (.cons halike .nil)
    (h.moved _ _ hR).stopOut (Nat.le_refl _) hc'
  refine ⟨_, c', hR, hRc, rfl, ?_⟩
  rw [hclass] at hrole hif
  rw [findMatch_opener (by rw [halike.kind, hrole]) (by rwa [halike.kind]), (h.moved _ _ hR).stop, hfound']
  rfl

/-- **A pair found from its closer** is found from the closer's twin. -/
theorem findMatch_closer_twin (h : P.Carries g R b b' o) (hrole : (P.classify b p).kind.role = .closer)
    (hif : o.kind ≠ .ifBlock) (hfound : P.findMatch b p = some ⟨o, c⟩) :
    ∃ o' c', R o o' ∧ R c c' ∧ P.classify b' (g.move c.start) = c' ∧
      P.findMatch b' (g.move c.start) = some ⟨o', c'⟩ := by
  have hs := P.scanner_sound b
  have hs' := P.scanner_sound b'
  have hmem := classify_mem (P := P) (b := b) (p := p) (by rw [hrole]; simp)
  obtain ⟨hclass, -, hbefore⟩ := findMatch_closer_found hrole hfound
  obtain ⟨hR, hspare⟩ := classify_twin h.toTwins (by rw [hrole]; simp) hclass
  rw [findMatch_closer hrole, hclass, Option.map_eq_some_iff] at hfound
  obtain ⟨o', ho', heq⟩ := hfound
  cases heq
  rw [hclass] at hrole hmem
  obtain ⟨-, hlt, hsize⟩ := (P.dialect.tokenize_laid b.text).bounds hmem
  rw [← b.size_eq] at hsize
  have halike := h.alike _ _ hR (by omega)
  have hpend : List.Forall₂ P.Alike ({ pending := [c] } : Walk).pending
      ({ pending := [P.classify b' (g.move c.start)] } : Walk).pending := .cons halike .nil
  obtain ⟨o', hfound', hRo⟩ := openerBefore_twin h ((Scanner.next_spec hs p).follows.sound hs)
    ((Scanner.next_spec hs' (g.move c.start)).follows.sound hs') hspare hpend (by omega)
    (h.moved _ _ hR).startOut hif ho'
  refine ⟨o', _, hRo, hR, rfl, ?_⟩
  rw [findMatch_closer (by rw [halike.kind, hrole]), (h.moved _ _ hR).start, hfound']
  rfl

end Profile

end BlockScript
