/-
  A scanner tells the tokens of the text.

  The line a scanner has at hand is a line of the buffer (`Sound`), so keeping it changes no answer
  (`lineAt_spec`).  `tokenAfter` and `tokenBefore` say what to answer in terms of the tokens of the whole
  text; `next_spec` and `prev_spec` say that a scanner answers so unless its budget has run out, and with
  an edge once it has.  What a call leaves behind is bundled in `Follows`: a sound scanner with the same
  budget and no fewer visits.

  Without a budget nothing runs out, whatever was asked before: that is `scanner_tells_tokens`, the
  main result here.
-/
import BlockScript.Proofs.LineLookup
import Mathlib.Data.List.Find

namespace BlockScript

/-! ## The answers, from the tokens of the whole text -/

namespace Token

variable {ts : List Token} {p : Nat}

/-- Tokens that stop at an offset or before it are not met ahead of it. -/
theorem find?_stop_eq_none (h : ∀ x ∈ ts, x.stop ≤ p) : ts.find? (p < ·.stop) = none := by
  refine List.find?_eq_none.2 fun x hx => ?_
  simpa using h x hx

/-- Tokens that start at an offset or after it are not met behind it. -/
theorem find?_start_eq_none (h : ∀ x ∈ ts, p ≤ x.start) : ts.reverse.find? (·.start < p) = none := by
  refine List.find?_eq_none.2 fun x hx => ?_
  simpa using h x (List.mem_reverse.1 hx)

/-- Of tokens in order, those that start before an offset come first. -/
theorem Laid.exists_filter_append {a c : Nat} (h : Laid a c ts) (p : Nat) :
    ∃ post, ts = ts.filter (·.start < p) ++ post ∧ ∀ y ∈ post, p ≤ y.start := by
  induction ts generalizing a with
  | nil => exact ⟨[], rfl, by simp⟩
  | cons x xs ih =>
    obtain ⟨-, hx, hxs⟩ := h
    by_cases hp : x.start < p
    · obtain ⟨post, h1, h2⟩ := ih hxs
      exact ⟨post, by rw [List.filter_cons_of_pos (by simpa using hp), List.cons_append, ← h1], h2⟩
    · -- from here on every token starts at `p` or later
      have hall : ∀ y ∈ x :: xs, p ≤ y.start := by
        intro y hy
        rcases List.mem_cons.1 hy with rfl | hy
        · omega
        · have := hxs.bounds hy
          omega
      have hnil : (x :: xs).filter (·.start < p) = [] :=
        List.filter_eq_nil_iff.2 fun y hy => by simpa using hall y hy
      exact ⟨x :: xs, by rw [hnil, List.nil_append], hall⟩

end Token

namespace Dialect

/-- The first token of the text that ends after offset `p`, or the edge at the end. -/
def tokenAfter (d : Dialect) (t : Text) (p : Nat) : Token :=
  ((d.tokenize t).find? (p < ·.stop)).getD (Token.edgeAt t.size)

/-- The last token of the text that starts before offset `p`, or the edge at the front. -/
def tokenBefore (d : Dialect) (t : Text) (p : Nat) : Token :=
  ((d.tokenize t).reverse.find? (·.start < p)).getD (Token.edgeAt 0)

variable (d : Dialect) {b : Buffer} {p : Nat}

/-- What follows an offset is a token of the text, or the edge. -/
theorem tokenAfter_mem {d : Dialect} {t : Text} {p : Nat} (h : (d.tokenAfter t p).kind ≠ .edge) :
    d.tokenAfter t p ∈ d.tokenize t := by
  unfold tokenAfter at h ⊢
  cases hfind : (d.tokenize t).find? (p < ·.stop) with
  | none =>
    rw [hfind] at h
    exact absurd rfl h
  | some x => exact List.mem_of_find?_eq_some hfind

/-- What stands before an offset is a token of the text, or the edge. -/
theorem tokenBefore_mem {d : Dialect} {t : Text} {p : Nat} (h : (d.tokenBefore t p).kind ≠ .edge) :
    d.tokenBefore t p ∈ d.tokenize t := by
  unfold tokenBefore at h ⊢
  cases hfind : (d.tokenize t).reverse.find? (·.start < p) with
  | none =>
    rw [hfind] at h
    exact absurd rfl h
  | some x => exact List.mem_reverse.1 (List.mem_of_find?_eq_some hfind)

/-! ### At a place between two tokens -/

variable {t : Text} {pre post rev : List Token} {x : Token}

/-- Tokens before one of them stop where it starts or earlier; tokens after it start where it stops or
    later. -/
theorem tokenize_apart (h : d.tokenize t = pre ++ x :: post) :
    (∀ y ∈ pre, y.start < y.stop ∧ y.stop ≤ x.start) ∧ x.start < x.stop ∧
      (∀ y ∈ post, x.stop ≤ y.start ∧ y.start < y.stop) := by
  have hlaid := d.tokenize_laid t
  rw [h] at hlaid
  obtain ⟨h1, h2, h3⟩ := hlaid.split
  exact ⟨fun y hy => (h1.bounds hy).2, h2, fun y hy => ⟨(h3.bounds hy).1, (h3.bounds hy).2.1⟩⟩

/-- An offset that parts the tokens of a text for a look ahead: those in `rev`, the nearest first, stop
    at it or before it, and those in `post` after it. -/
structure Gap (d : Dialect) (t : Text) (p : Nat) (rev post : List Token) : Prop where
  tokens : d.tokenize t = rev.reverse ++ post
  before : ∀ y ∈ rev, y.stop ≤ p
  after : ∀ y ∈ post, p < y.stop

namespace Gap

variable {d}

/-- Looking ahead from a gap shows the nearest token after it. -/
theorem tokenAfter (h : d.Gap t p rev post) :
    d.tokenAfter t p = post.head?.getD (Token.edgeAt t.size) := by
  have hnone : rev.reverse.find? (p < ·.stop) = none :=
    Token.find?_stop_eq_none fun x hx => h.before x (List.mem_reverse.1 hx)
  have hhead : post.find? (p < ·.stop) = post.head? := by
    cases post with
    | nil => rfl
    | cons x xs => exact List.find?_cons_of_pos (by simpa using h.after x (List.mem_cons_self ..))
  rw [Dialect.tokenAfter, h.tokens, List.find?_append, hnone, Option.none_or, hhead]

/-- An offset that no earlier token reaches is a gap before the token it lies in or comes before. -/
theorem of_lt_stop (h : d.tokenize t = rev.reverse ++ x :: post) (hrev : ∀ y ∈ rev, y.stop ≤ p)
    (hx : p < x.stop) : d.Gap t p rev (x :: post) := by
  obtain ⟨-, -, hpost⟩ := d.tokenize_apart h
  refine ⟨h, hrev, fun y hy => ?_⟩
  rcases List.mem_cons.1 hy with rfl | hy
  · exact hx
  · have := hpost y hy
    omega

/-- Where tokens laid out up to an offset meet tokens laid out from it on there is a gap. -/
theorem of_laid {q : Nat} (h : d.tokenize t = pre ++ post) (hpre : Token.Laid 0 p pre)
    (hpost : Token.Laid p q post) : d.Gap t p pre.reverse post := by
  refine ⟨by rw [List.reverse_reverse, h], fun y hy => ?_, fun y hy => ?_⟩
  · exact (hpre.bounds (List.mem_reverse.1 hy)).2.2
  · have := hpost.bounds hy
    omega

/-- The start of a token is a gap right before it. -/
theorem of_start (h : d.tokenize t = rev.reverse ++ x :: post) : d.Gap t x.start rev (x :: post) := by
  obtain ⟨hpre, hx, -⟩ := d.tokenize_apart h
  exact of_lt_stop h (fun y hy => (hpre y (List.mem_reverse.2 hy)).2) hx

/-- The stop of a token is a gap right after it. -/
theorem of_stop (h : d.tokenize t = rev.reverse ++ x :: post) : d.Gap t x.stop (x :: rev) post := by
  obtain ⟨hpre, hx, hpost⟩ := d.tokenize_apart h
  refine ⟨by simp [h], fun y hy => ?_, fun y hy => ?_⟩
  · rcases List.mem_cons.1 hy with rfl | hy
    · exact Nat.le_refl _
    · have := hpre y (List.mem_reverse.2 hy)
      omega
  · have := hpost y hy
    omega

/-- One token ahead of a gap there is another. -/
theorem ahead (h : d.Gap t p rev (x :: post)) : d.Gap t x.stop (x :: rev) post := of_stop h.tokens

end Gap

/-- Every offset is a gap. -/
theorem exists_gap (t : Text) (p : Nat) : ∃ rev post, d.Gap t p rev post := by
  have hsplit : d.tokenize t = ((d.tokenize t).takeWhile (·.stop ≤ p)).reverse.reverse ++
      (d.tokenize t).dropWhile (·.stop ≤ p) := by
    rw [List.reverse_reverse, List.takeWhile_append_dropWhile]
  have hbefore : ∀ y ∈ ((d.tokenize t).takeWhile (·.stop ≤ p)).reverse, y.stop ≤ p := by
    intro y hy
    simpa using List.all_eq_true.1 List.all_takeWhile y (List.mem_reverse.1 hy)
  refine ⟨_, _, hsplit, hbefore, ?_⟩
  cases hd : (d.tokenize t).dropWhile (·.stop ≤ p) with
  | nil => simp
  | cons x post =>
    have hx : p < x.stop := by
      have := List.head?_dropWhile_not (fun y : Token => decide (y.stop ≤ p)) (d.tokenize t)
      rw [hd] at this
      simpa using this
    rw [hd] at hsplit
    exact (Gap.of_lt_stop hsplit hbefore hx).after

/-- An offset that parts the tokens of a text: those in `rev`, the nearest first, start before it, and
    those in `post` at it or after it. -/
structure Cut (d : Dialect) (t : Text) (p : Nat) (rev post : List Token) : Prop where
  tokens : d.tokenize t = rev.reverse ++ post
  before : ∀ y ∈ rev, y.start < p
  after : ∀ y ∈ post, p ≤ y.start

namespace Cut

variable {d}

/-- Looking back from a cut shows the nearest token before it. -/
theorem tokenBefore (h : d.Cut t p rev post) : d.tokenBefore t p = rev.head?.getD (Token.edgeAt 0) := by
  have hnone : post.reverse.find? (·.start < p) = none := Token.find?_start_eq_none h.after
  have hhead : rev.find? (·.start < p) = rev.head? := by
    cases rev with
    | nil => rfl
    | cons x xs => exact List.find?_cons_of_pos (by simpa using h.before x (List.mem_cons_self ..))
  rw [Dialect.tokenBefore, h.tokens, List.reverse_append, List.reverse_reverse, List.find?_append,
    hnone, Option.none_or, hhead]

/-- Where tokens laid out up to an offset meet tokens laid out from it on there is a cut. -/
theorem of_laid {q : Nat} (h : d.tokenize t = pre ++ post) (hpre : Token.Laid 0 p pre)
    (hpost : Token.Laid p q post) : d.Cut t p pre.reverse post := by
  refine ⟨by rw [List.reverse_reverse, h], fun y hy => ?_, fun y hy => (hpost.bounds hy).1⟩
  have := hpre.bounds (List.mem_reverse.1 hy)
  omega

/-- The start of a token is a cut right before it. -/
theorem of_start (h : d.tokenize t = rev.reverse ++ x :: post) : d.Cut t x.start rev (x :: post) := by
  obtain ⟨hpre, hx, hpost⟩ := d.tokenize_apart h
  refine ⟨h, fun y hy => ?_, fun y hy => ?_⟩
  · have := hpre y (List.mem_reverse.2 hy)
    omega
  · rcases List.mem_cons.1 hy with rfl | hy
    · exact Nat.le_refl _
    · have := hpost y hy
      omega

/-- The stop of a token is a cut right after it. -/
theorem of_stop (h : d.tokenize t = rev.reverse ++ x :: post) : d.Cut t x.stop (x :: rev) post := by
  obtain ⟨hpre, hx, hpost⟩ := d.tokenize_apart h
  refine ⟨by simp [h], fun y hy => ?_, fun y hy => (hpost y hy).1⟩
  rcases List.mem_cons.1 hy with rfl | hy
  · exact hx
  · have := hpre y (List.mem_reverse.2 hy)
    omega

/-- One token back from a cut there is another. -/
theorem back (h : d.Cut t p (x :: rev) post) : d.Cut t x.start rev (x :: post) :=
  of_start (by simp [h.tokens])

end Cut

/-- Every offset is a cut between the tokens that start before it and the others. -/
theorem exists_cut (t : Text) (p : Nat) :
    ∃ post, d.Cut t p ((d.tokenize t).filter (·.start < p)).reverse post := by
  obtain ⟨post, h1, h2⟩ := (d.tokenize_laid t).exists_filter_append p
  refine ⟨post, by rwa [List.reverse_reverse], fun y hy => ?_, h2⟩
  simpa using (List.mem_filter.1 (List.mem_reverse.1 hy)).2

/-! ### On the line of an offset -/

theorem tokenAfter_of_size_le (h : b.size ≤ p) : d.tokenAfter b.text p = Token.edgeAt b.size := by
  have hlaid : Token.Laid 0 p (d.tokenize b.text ++ []) :=
    (b.size_eq ▸ d.tokenize_laid b.text : Token.Laid 0 b.size _).append h
  rw [List.append_nil] at hlaid
  have hgap : d.Gap b.text p (d.tokenize b.text).reverse [] :=
    .of_laid (List.append_nil _).symm hlaid (Nat.le_refl p)
  rw [hgap.tokenAfter, b.size_eq]
  rfl

theorem tokenBefore_zero (t : Text) : d.tokenBefore t 0 = Token.edgeAt 0 := by
  have hcut : d.Cut t 0 [] (d.tokenize t) :=
    .of_laid (List.nil_append _).symm (Nat.le_refl 0) (d.tokenize_laid t)
  rw [hcut.tokenBefore]
  rfl

theorem start_lt_size {t : Token} (ht : t ∈ d.tokenize b.text) : t.start < b.size := by
  have := (d.tokenize_laid b.text).bounds ht
  have := b.size_eq
  omega

/-- Tokens start inside the text, so looking back from beyond its end is looking back from its end. -/
theorem tokenBefore_min (p : Nat) : d.tokenBefore b.text (min p b.size) = d.tokenBefore b.text p := by
  have hsame : (d.tokenize b.text).reverse.find? (·.start < min p b.size) =
      (d.tokenize b.text).reverse.find? (·.start < p) := by
    refine List.find?_congr fun t ht => ?_
    have := d.start_lt_size (List.mem_reverse.1 ht)
    exact decide_eq_decide.2 (by omega)
  rw [tokenBefore, hsame, tokenBefore]

theorem filter_start_min (p : Nat) :
    (d.tokenize b.text).filter (·.start < min p b.size) = (d.tokenize b.text).filter (·.start < p) := by
  refine List.filter_congr fun t ht => ?_
  have := d.start_lt_size ht
  exact decide_eq_decide.2 (by omega)

/-- A token found on the line of an offset is the one the whole text has after that offset. -/
theorem tokenAfter_of_found (hp : p < b.size) {t : Token}
    (h : (d.lineAt b p).tokens.find? (p < ·.stop) = some t) : d.tokenAfter b.text p = t := by
  obtain ⟨pre, post, heq, hpre, -, -⟩ := d.tokenize_around hp
  have hle := d.lineAt_start_le b p
  have hnone : pre.find? (p < ·.stop) = none :=
    Token.find?_stop_eq_none fun x hx => Nat.le_trans (hpre.bounds hx).2.2 hle
  rw [tokenAfter, heq, List.find?_append, hnone, List.find?_append, h]
  rfl

/-- If the line of an offset shows no token after it, the search may go on at the line's end. -/
theorem tokenAfter_of_missed (hp : p < b.size)
    (h : (d.lineAt b p).tokens.find? (p < ·.stop) = none) :
    d.tokenAfter b.text p = d.tokenAfter b.text (d.lineAt b p).stop := by
  obtain ⟨pre, post, heq, hpre, hline, hpost⟩ := d.tokenize_around hp
  have hle := d.lineAt_start_le b p
  have hlt := d.lineAt_lt_stop hp
  -- either offset is a gap between the line's last token and the first one after the line
  have hgap : ∀ q, p ≤ q → q ≤ (d.lineAt b p).stop → (∀ y ∈ (d.lineAt b p).tokens, y.stop ≤ q) →
      d.Gap b.text q (pre ++ (d.lineAt b p).tokens).reverse post := by
    intro q hpq hq hbefore
    refine ⟨by simp [heq], fun y hy => ?_, fun y hy => ?_⟩
    · rcases List.mem_append.1 (List.mem_reverse.1 hy) with hy | hy
      · have := (hpre.bounds hy).2.2
        omega
      · exact hbefore y hy
    · have := hpost.bounds hy
      omega
  have hmissed : ∀ y ∈ (d.lineAt b p).tokens, y.stop ≤ p := by
    intro y hy
    simpa using List.find?_eq_none.1 h y hy
  rw [(hgap p (Nat.le_refl p) (Nat.le_of_lt hlt) hmissed).tokenAfter,
    (hgap _ (Nat.le_of_lt hlt) (Nat.le_refl _) fun y hy => (hline.bounds hy).2.2).tokenAfter]

/-- A token found on the line before an offset is the one the whole text has before that offset. -/
theorem tokenBefore_of_found (hp : p < b.size) {t : Token}
    (h : (d.lineAt b p).tokens.reverse.find? (·.start < p + 1) = some t) :
    d.tokenBefore b.text (p + 1) = t := by
  obtain ⟨pre, post, heq, -, -, hpost⟩ := d.tokenize_around hp
  have hlt := d.lineAt_lt_stop hp
  have hnone : post.reverse.find? (·.start < p + 1) = none :=
    Token.find?_start_eq_none fun x hx => Nat.le_trans hlt (hpost.bounds hx).1
  rw [tokenBefore, heq, List.reverse_append, List.reverse_append, List.find?_append,
    List.find?_append, hnone, h]
  rfl

/-- If the line before an offset shows no token before it, the search may go on at the line's start. -/
theorem tokenBefore_of_missed (hp : p < b.size)
    (h : (d.lineAt b p).tokens.reverse.find? (·.start < p + 1) = none) :
    d.tokenBefore b.text (p + 1) = d.tokenBefore b.text (d.lineAt b p).start := by
  obtain ⟨pre, post, heq, hpre, hline, hpost⟩ := d.tokenize_around hp
  have hle := d.lineAt_start_le b p
  have hlt := d.lineAt_lt_stop hp
  -- either offset is a cut between the last token before the line and the line's first one
  have hcut : ∀ q, (d.lineAt b p).start ≤ q → q ≤ p + 1 →
      (∀ y ∈ (d.lineAt b p).tokens, q ≤ y.start) →
      d.Cut b.text q pre.reverse ((d.lineAt b p).tokens ++ post) := by
    intro q hq hqp hafter
    refine ⟨by rw [List.reverse_reverse, heq], fun y hy => ?_, fun y hy => ?_⟩
    · have := hpre.bounds (List.mem_reverse.1 hy)
      omega
    · rcases List.mem_append.1 hy with hy | hy
      · exact hafter y hy
      · have := (hpost.bounds hy).1
        omega
  have hmissed : ∀ y ∈ (d.lineAt b p).tokens, p + 1 ≤ y.start := by
    intro y hy
    simpa using List.find?_eq_none.1 h y (List.mem_reverse.2 hy)
  rw [(hcut (p + 1) (by omega) (Nat.le_refl _) hmissed).tokenBefore,
    (hcut _ (Nat.le_refl _) (by omega) fun y hy => (hline.bounds hy).1).tokenBefore]

end Dialect

/-! ## What calls leave behind -/

namespace Scanner

/-- The line at hand, if any, is a line of the buffer. -/
def Sound (d : Dialect) (b : Buffer) (s : Scanner) : Prop :=
  ∀ l, s.line = some l → ∃ q, q < b.size ∧ l = d.lineAt b q

/-- How a scanner may differ from what it was before some calls. -/
structure Follows (d : Dialect) (b : Buffer) (s s' : Scanner) : Prop where
  sound : s.Sound d b → s'.Sound d b
  budget : s'.budget = s.budget
  visited : s.visited ≤ s'.visited

namespace Follows

variable {d : Dialect} {b : Buffer} {s s' s'' : Scanner}

theorem refl (s : Scanner) : s.Follows d b s := ⟨id, rfl, Nat.le_refl _⟩

theorem trans (h : s.Follows d b s') (h' : s'.Follows d b s'') : s.Follows d b s'' :=
  ⟨fun hs => h'.sound (h.sound hs), h'.budget.trans h.budget, Nat.le_trans h.visited h'.visited⟩

/-- A spent budget stays spent. -/
theorem exhausted (h : s.Follows d b s') (he : s.exhausted = true) : s'.exhausted = true := by
  unfold Scanner.exhausted at he ⊢
  rw [h.budget]
  cases hb : s.budget with
  | none => rw [hb] at he; cases he
  | some n =>
    rw [hb] at he
    have := h.visited
    simp only [Option.any_some, decide_eq_true_eq] at he ⊢
    omega

/-- What is left at the end was left before. -/
theorem not_exhausted (h : s.Follows d b s') (he : s'.exhausted = false) : s.exhausted = false := by
  cases hs : s.exhausted with
  | false => rfl
  | true => exact absurd (h.exhausted hs) (by simp [he])

end Follows

variable {d : Dialect} {b : Buffer} {s : Scanner}

/-- Without a budget nothing runs out. -/
theorem exhausted_eq_false (h : s.budget = none) : s.exhausted = false := by
  rw [exhausted, h]
  rfl

theorem sound_of_none (h : s.line = none) : s.Sound d b := by
  intro l hl
  rw [h] at hl
  cases hl

theorem visit_follows (s : Scanner) : s.Follows d b s.visit :=
  ⟨id, rfl, Nat.le_succ _⟩

theorem lineAt_visited (s : Scanner) (d : Dialect) (b : Buffer) (p : Nat) :
    (s.lineAt d b p).2.budget = s.budget ∧ (s.lineAt d b p).2.visited = s.visited := by
  unfold lineAt lineAt.fresh
  split
  · split <;> exact ⟨rfl, rfl⟩
  · exact ⟨rfl, rfl⟩

/-- A sound scanner shows the line of the buffer that holds the offset. -/
theorem lineAt_spec (hs : s.Sound d b) {p : Nat} (hp : p < b.size) :
    (s.lineAt d b p).1 = d.lineAt b p ∧ s.Follows d b (s.lineAt d b p).2 ∧
      (s.lineAt d b p).2.exhausted = s.exhausted := by
  have hfresh : s.Follows d b { s with line := some (d.lineAt b p) } := by
    refine ⟨fun _ l hl => ⟨p, hp, ?_⟩, rfl, Nat.le_refl _⟩
    exact (Option.some.inj hl).symm
  unfold lineAt
  split
  case h_2 => exact ⟨rfl, hfresh, rfl⟩
  case h_1 l hl =>
    split
    case isFalse => exact ⟨rfl, hfresh, rfl⟩
    case isTrue h =>
      -- the line at hand holds the offset, so it is the one that would be read
      obtain ⟨q, hq, rfl⟩ := hs l hl
      refine ⟨?_, Follows.refl s, rfl⟩
      have hstop : (d.lineAt b q).stop =
          (b.text.lineAt q).1 + Text.size (Text.firstLine (b.text.lineAt q).2) := by
        simp only [Dialect.lineAt, Piece.totalSize, d.pieces_text]
      have hsame := Text.lineAt_eq_of_holds (b.size_eq ▸ hp) h.1 (hstop ▸ h.2)
      simp only [Dialect.lineAt, hsame]

/-! ## The answers of a scanner -/

/-- What a computation with a scanner comes to when its right answer is `answer`: that answer, unless
    the budget has run out. -/
structure Gives {α : Type} (d : Dialect) (b : Buffer) (s : Scanner) (r : α × Scanner) (answer : α) :
    Prop where
  follows : s.Follows d b r.2
  fst_eq : r.2.exhausted = false → r.1 = answer

/-- A call gives its answer, and an edge once the budget has run out. -/
structure Tells (d : Dialect) (b : Buffer) (s : Scanner) (r : Token × Scanner) (answer : Token) :
    Prop extends Gives d b s r answer where
  edge : r.2.exhausted = true → r.1.kind = .edge

/-- Where the answer is an edge, an edge is told, whether the budget has run out or not. -/
theorem Tells.kind_eq_edge {r : Token × Scanner} {answer : Token} (h : Tells d b s r answer)
    (ha : answer.kind = .edge) : r.1.kind = .edge := by
  cases he : r.2.exhausted with
  | true => exact h.edge he
  | false => rw [h.fst_eq he, ha]

/-- `next` tells the first token that ends after the offset. -/
theorem next_spec (hs : s.Sound d b) (p : Nat) :
    Tells d b s (s.next d b p) (d.tokenAfter b.text p) := by
  fun_induction next s d b p with
  | case1 s p hp he =>
    -- the visit that spends the budget: an edge is told, whatever the answer
    refine ⟨⟨visit_follows s, fun h => ?_⟩, fun _ => rfl⟩
    rw [he] at h
    cases h
  | case2 s p hp he found t ht =>
    obtain ⟨h1, h2, h3⟩ := lineAt_spec ((visit_follows s).sound hs) hp
    refine ⟨⟨(visit_follows s).trans h2, fun _ => ?_⟩, fun h => ?_⟩
    · rw [h1] at ht
      exact (d.tokenAfter_of_found hp ht).symm
    · rw [h3] at h
      exact absurd h he
  | case3 s p hp he found ht ih =>
    -- nothing on this line: from its end on the answer is the same
    obtain ⟨h1, h2, h3⟩ := lineAt_spec ((visit_follows s).sound hs) hp
    have htells := ih (h2.sound ((visit_follows s).sound hs))
    rw [h1] at ht
    rw [show found.1 = d.lineAt b p from h1, ← d.tokenAfter_of_missed hp ht] at htells
    rw [show found.1 = d.lineAt b p from h1]
    exact ⟨⟨((visit_follows s).trans h2).trans htells.follows, htells.fst_eq⟩, htells.edge⟩
  | case4 s p hp =>
    exact ⟨⟨Follows.refl s, fun _ => (d.tokenAfter_of_size_le (Nat.le_of_not_lt hp)).symm⟩, fun _ => rfl⟩

theorem prevWithin_spec (hs : s.Sound d b) {p : Nat} (hp : p ≤ b.size) :
    Tells d b s (s.prevWithin d b p) (d.tokenBefore b.text p) := by
  fun_induction prevWithin s d b p with
  | case1 s => exact ⟨⟨Follows.refl s, fun _ => (d.tokenBefore_zero b.text).symm⟩, fun _ => rfl⟩
  | case2 s p h0 he =>
    refine ⟨⟨visit_follows s, fun h => ?_⟩, fun _ => rfl⟩
    rw [he] at h
    cases h
  | case3 s p h0 he found t ht =>
    obtain ⟨q, rfl⟩ := Nat.exists_eq_succ_of_ne_zero h0
    obtain ⟨h1, h2, h3⟩ := lineAt_spec ((visit_follows s).sound hs) (Nat.lt_of_succ_le hp)
    refine ⟨⟨(visit_follows s).trans h2, fun _ => ?_⟩, fun h => ?_⟩
    · rw [show found.1 = d.lineAt b q from h1] at ht
      exact (d.tokenBefore_of_found (Nat.lt_of_succ_le hp) ht).symm
    · rw [show found.2.exhausted = _ from h3] at h
      exact absurd h he
  | case4 s p h0 he found ht ih =>
    obtain ⟨q, rfl⟩ := Nat.exists_eq_succ_of_ne_zero h0
    obtain ⟨h1, h2, h3⟩ := lineAt_spec ((visit_follows s).sound hs) (Nat.lt_of_succ_le hp)
    have hstart : found.1.start ≤ b.size := by
      have := s.visit.lineAt_start_le d b q
      exact Nat.le_trans this (Nat.le_of_succ_le hp)
    have htells := ih (h2.sound ((visit_follows s).sound hs)) hstart
    rw [show found.1 = d.lineAt b q from h1] at ht htells ⊢
    rw [← d.tokenBefore_of_missed (Nat.lt_of_succ_le hp) ht] at htells
    exact ⟨⟨((visit_follows s).trans h2).trans htells.follows, htells.fst_eq⟩, htells.edge⟩

/-- `prev` tells the last token that starts before the offset. -/
theorem prev_spec (hs : s.Sound d b) (p : Nat) :
    Tells d b s (s.prev d b p) (d.tokenBefore b.text p) := by
  have h := prevWithin_spec hs (Nat.min_le_right p b.size)
  rwa [d.tokenBefore_min] at h

/-- A call that tells anything but an edge tells its answer. -/
theorem Tells.eq_of_ne_edge {r : Token × Scanner} {answer : Token} (h : Tells d b s r answer)
    (hk : r.1.kind ≠ .edge) : r.1 = answer := by
  cases he : r.2.exhausted with
  | true => exact absurd (h.edge he) hk
  | false => exact h.fst_eq he

theorem next_mem (hs : s.Sound d b) {p : Nat} (hk : (s.next d b p).1.kind ≠ .edge) :
    (s.next d b p).1 ∈ d.tokenize b.text := by
  have heq := (next_spec hs p).eq_of_ne_edge hk
  rw [heq] at hk ⊢
  exact Dialect.tokenAfter_mem hk

theorem prev_mem (hs : s.Sound d b) {p : Nat} (hk : (s.prev d b p).1.kind ≠ .edge) :
    (s.prev d b p).1 ∈ d.tokenize b.text := by
  have heq := (prev_spec hs p).eq_of_ne_edge hk
  rw [heq] at hk ⊢
  exact Dialect.tokenBefore_mem hk

/-! ## Whole walks, after any history -/

/-- A call of a scanner, at an offset of the caller's choice. -/
inductive Call where
  | next (p : Nat)
  | prev (p : Nat)
  | forward (p : Nat)
  | backward (p : Nat)

/-- The scanner after a call. -/
def call (d : Dialect) (b : Buffer) (s : Scanner) : Call → Scanner
  | .next p => (s.next d b p).2
  | .prev p => (s.prev d b p).2
  | .forward p => (s.forward d b p).2.2
  | .backward p => (s.backward d b p).2.2

/-- The tokens met by going forward from offset `p` until the edge. -/
def walkForward (s : Scanner) (d : Dialect) (b : Buffer) (p : Nat) : List Token :=
  match _h : s.forward d b p with
  | (t, q, s') => if t.kind = .edge then [] else t :: walkForward s' d b q
termination_by b.size - p
decreasing_by
  simp only [forward, Prod.mk.injEq] at _h
  obtain ⟨rfl, rfl, rfl⟩ := _h
  have := s.lt_stop_of_next d b p ‹_›
  omega

/-- The tokens met by going backward from offset `p` until the edge. -/
def walkBackward (s : Scanner) (d : Dialect) (b : Buffer) (p : Nat) : List Token :=
  match _h : s.backward d b p with
  | (t, q, s') => if t.kind = .edge then [] else t :: walkBackward s' d b q
termination_by p
decreasing_by
  simp only [backward, Prod.mk.injEq] at _h
  obtain ⟨rfl, rfl, rfl⟩ := _h
  exact s.start_lt_of_prev d b p ‹_›

theorem walkForward_eq (s : Scanner) (d : Dialect) (b : Buffer) (p : Nat) :
    s.walkForward d b p =
      if (s.next d b p).1.kind = .edge then []
      else (s.next d b p).1 :: (s.next d b p).2.walkForward d b (s.next d b p).1.stop := by
  rw [walkForward]
  rfl

theorem walkBackward_eq (s : Scanner) (d : Dialect) (b : Buffer) (p : Nat) :
    s.walkBackward d b p =
      if (s.prev d b p).1.kind = .edge then []
      else (s.prev d b p).1 :: (s.prev d b p).2.walkBackward d b (s.prev d b p).1.start := by
  rw [walkBackward]
  rfl

theorem call_follows (hs : s.Sound d b) (c : Call) : s.Follows d b (s.call d b c) := by
  cases c with
  | next p => exact (next_spec hs p).follows
  | prev p => exact (prev_spec hs p).follows
  | forward p => exact (next_spec hs p).follows
  | backward p => exact (prev_spec hs p).follows

/-- A scanner stays sound over any calls. -/
theorem calls_follow (hs : s.Sound d b) (cs : List Call) :
    s.Follows d b (cs.foldl (call d b) s) := by
  induction cs generalizing s with
  | nil => exact Follows.refl s
  | cons c cs ih =>
    have h := call_follows hs c
    exact h.trans (ih (h.sound hs))

theorem Gives.of_unlimited {α : Type} {r : α × Scanner} {answer : α} (h : Gives d b s r answer)
    (hb : s.budget = none) : r.1 = answer ∧ r.2.budget = none :=
  have hr := h.follows.budget.trans hb
  ⟨h.fst_eq (exhausted_eq_false hr), hr⟩

/-- Forward from a gap a walk meets all tokens after it. -/
theorem walkForward_tokens (hs : s.Sound d b) (hb : s.budget = none) {rev post : List Token} {p : Nat}
    (h : d.Gap b.text p rev post) : s.walkForward d b p = post := by
  have htells := next_spec hs p
  obtain ⟨h1, h2⟩ := htells.of_unlimited hb
  rw [h.tokenAfter] at h1
  induction post generalizing s rev p with
  | nil =>
    rw [walkForward_eq, h1]
    rfl
  | cons x xs ih =>
    -- no token of the text is an edge, so the walk goes on behind it, with the scanner it is left with
    rw [List.head?_cons, Option.getD_some] at h1
    have hx : x.kind ≠ .edge := d.tokenize_ne_edge b.text x (by simp [h.tokens])
    have hs' := htells.follows.sound hs
    have hnext := (next_spec hs' x.stop).of_unlimited h2
    rw [h.ahead.tokenAfter] at hnext
    have hrest := ih hs' h2 h.ahead (next_spec hs' x.stop) hnext.1 hnext.2
    rw [walkForward_eq, h1, if_neg hx, hrest]

/-- Backward from a cut a walk meets all tokens before it, the nearest first. -/
theorem walkBackward_tokens (hs : s.Sound d b) (hb : s.budget = none) {rev post : List Token} {p : Nat}
    (h : d.Cut b.text p rev post) : s.walkBackward d b p = rev := by
  have htells := prev_spec hs p
  obtain ⟨h1, h2⟩ := htells.of_unlimited hb
  rw [h.tokenBefore] at h1
  induction rev generalizing s post p with
  | nil =>
    rw [walkBackward_eq, h1]
    rfl
  | cons x xs ih =>
    rw [List.head?_cons, Option.getD_some] at h1
    have hx : x.kind ≠ .edge := d.tokenize_ne_edge b.text x (by simp [h.tokens])
    have hs' := htells.follows.sound hs
    have hnext := (prev_spec hs' x.start).of_unlimited h2
    rw [h.back.tokenBefore] at hnext
    have hrest := ih hs' h2 h.back (prev_spec hs' x.start) hnext.1 hnext.2
    rw [walkBackward_eq, h1, if_neg hx, hrest]

/-- **A scanner tells the tokens of the text, whatever its history.**  After any calls, a scanner
    without a budget answers at every offset with the first token that ends after it, and with the last
    one that starts before it; so walks from either end meet all tokens, and a step back undoes a step
    ahead. -/
theorem scanner_tells_tokens (d : Dialect) (b : Buffer) (history : List Call) (p : Nat) :
    let s := history.foldl (call d b) {}
    (s.next d b p).1 = ((d.tokenize b.text).find? (p < ·.stop)).getD (Token.edgeAt b.size) ∧
    (s.prev d b p).1 =
      ((d.tokenize b.text).reverse.find? (·.start < min p b.size)).getD (Token.edgeAt 0) ∧
    s.walkForward d b 0 = d.tokenize b.text ∧
    s.walkBackward d b b.size = (d.tokenize b.text).reverse ∧
    ∀ t ∈ d.tokenize b.text,
      let (ahead, stop, s') := s.forward d b t.start
      let (back, start, _) := s'.backward d b stop
      ahead = t ∧ back = t ∧ start = t.start := by
  intro s
  have hfresh : ({} : Scanner).Sound d b := sound_of_none rfl
  have hfollows : ({} : Scanner).Follows d b s := calls_follow hfresh history
  have hs : s.Sound d b := hfollows.sound hfresh
  have hb : s.budget = none := hfollows.budget
  have hlaid := d.tokenize_laid b.text
  rw [← b.size_eq] at hlaid
  refine ⟨?_, ?_, ?_, ?_, ?_⟩
  · rw [((next_spec hs p).of_unlimited hb).1, Dialect.tokenAfter, b.size_eq]
  · rw [((prev_spec hs p).of_unlimited hb).1, ← d.tokenBefore_min, Dialect.tokenBefore]
  · have hgap : d.Gap b.text 0 [] (d.tokenize b.text) :=
      .of_laid (List.nil_append _).symm (Nat.le_refl 0) hlaid
    exact walkForward_tokens hs hb hgap
  · have hcut : d.Cut b.text b.size (d.tokenize b.text).reverse [] :=
      .of_laid (List.append_nil _).symm hlaid (Nat.le_refl b.size)
    exact walkBackward_tokens hs hb hcut
  · intro t ht
    obtain ⟨pre, post, hsplit⟩ := List.append_of_mem ht
    rw [← List.reverse_reverse pre] at hsplit
    have hahead := next_spec hs t.start
    obtain ⟨h1, h2⟩ := hahead.of_unlimited hb
    rw [(Dialect.Gap.of_start hsplit).tokenAfter, List.head?_cons, Option.getD_some] at h1
    have hback := ((prev_spec (hahead.follows.sound hs) t.stop).of_unlimited h2).1
    rw [(Dialect.Cut.of_stop hsplit).tokenBefore, List.head?_cons, Option.getD_some] at hback
    simp only [forward, backward, h1, hback, and_self]

end Scanner

end BlockScript
