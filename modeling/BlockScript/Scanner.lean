/-
  Walking the tokens of a buffer from any offset, in either direction.

  A scanner reads the line it lands on and keeps it until it leaves it.  Each look at a line is one
  visit; with a budget, the visits beyond it show nothing: the answer is the edge token, as if the
  buffer ended there.  `next` and `prev` leave a line without a fitting token for the line after or
  before it, so the offset they ask at moves strictly; that is why they end, and why every walk built
  on them does (`lt_stop_of_next`, `start_lt_of_prev`).
-/
import BlockScript.Token.Reading

namespace BlockScript

/-! ## Lines hold the offsets they were looked up for -/

namespace Text

theorem findLine_start_le (p : Nat) (t : Text) :
    ∀ (off : Nat) (line : Nat × Text), line.1 ≤ off → off ≤ p →
      (findLine p off line t).1 ≤ p := by
  induction t with
  | nil => intro off line h1 h2; exact Nat.le_trans h1 h2
  | cons c cs ih =>
    intro off line h1 h2
    rw [findLine]
    split
    case isTrue h =>
      refine ih _ _ ?_ h
      split
      · exact Nat.le_refl _
      · exact Nat.le_trans h1 (Nat.le_add_right _ _)
    case isFalse => exact Nat.le_trans h1 h2

/-- The line found for `p` starts at or before `p`. -/
theorem lineAt_start_le (t : Text) (p : Nat) : (lineAt t p).1 ≤ p :=
  findLine_start_le p t 0 (0, t) (Nat.le_refl 0) (Nat.zero_le p)

/-- Where the walk stands: `line` started before offset `off`, no line break lies between, and the
    text `t` at `off` is what is left of it. -/
structure OnLine (off : Nat) (line : Nat × Text) (t : Text) : Prop where
  ahead : ∃ gone : Text, line.2 = gone ++ t ∧ line.1 + size gone = off ∧ ∀ c ∈ gone, c ≠ '\n'

theorem findLine_lt_stop (p : Nat) (t : Text) :
    ∀ (off : Nat) (line : Nat × Text), OnLine off line t → off ≤ p → p < off + size t →
      p < (findLine p off line t).1 + size (firstLine (findLine p off line t).2) := by
  induction t with
  | nil => intro off line _ h1 h2; simp at h2; omega
  | cons c cs ih =>
    intro off line hl h1 h2
    obtain ⟨gone, hg, hs, hb⟩ := hl.ahead
    rw [findLine]
    split
    case isTrue h =>
      refine ih _ _ ?_ h (by simp at h2; omega)
      split
      · exact ⟨[], by simp⟩
      · rename_i hc
        refine ⟨gone ++ [c], by simp [hg], by simp; omega, ?_⟩
        intro x hx
        rcases List.mem_append.1 hx with hx | hx
        · exact hb x hx
        · rw [List.mem_singleton.1 hx]; exact hc
    case isFalse h =>
      have hf : firstLine (c :: cs) = c :: (firstLine (c :: cs)).tail := by
        rw [firstLine]; split <;> simp
      rw [hg, firstLine_append hb, hf, size_append, size_cons]
      omega

/-- The line found for an offset inside the text ends after that offset. -/
theorem lineAt_lt_stop {t : Text} {p : Nat} (h : p < size t) :
    p < (lineAt t p).1 + size (firstLine (lineAt t p).2) :=
  findLine_lt_stop p t 0 (0, t) ⟨[], by simp⟩ (Nat.zero_le p) (by omega)

end Text

/-! ## The scanner -/

/-- A line read into tokens, with the offsets where it starts and where the next one starts. -/
structure TokenLine where
  start : Nat
  stop : Nat
  tokens : List Token
  deriving DecidableEq, Repr

namespace Dialect

/-- The line that holds offset `p`. -/
def lineAt (d : Dialect) (b : Buffer) (p : Nat) : TokenLine :=
  let (start, rest) := b.text.lineAt p
  let ps := (d.pieces none rest).1
  ⟨start, start + Piece.totalSize ps, d.tokensOf (place start ps)⟩

theorem lineAt_start_le (d : Dialect) (b : Buffer) (p : Nat) : (d.lineAt b p).start ≤ p :=
  b.text.lineAt_start_le p

theorem lineAt_lt_stop (d : Dialect) {b : Buffer} {p : Nat} (h : p < b.size) :
    p < (d.lineAt b p).stop := by
  have := Text.lineAt_lt_stop (b.size_eq ▸ h)
  simpa [lineAt, Piece.totalSize, d.pieces_text] using this

end Dialect

/-- The state of a walk over the tokens of a buffer: the line at hand, how many visits are allowed,
    and how many were made. -/
structure Scanner where
  line : Option TokenLine := none
  budget : Option Nat := none
  visited : Nat := 0
  deriving DecidableEq, Repr

namespace Scanner

/-- Whether the walk asked for more visits than it was allowed. -/
def exhausted (s : Scanner) : Bool := s.budget.any (· < s.visited)

/-- The scanner after one more visit. -/
def visit (s : Scanner) : Scanner := { s with visited := s.visited + 1 }

/-- The line that holds offset `p`, from the line at hand if it does. -/
def lineAt (s : Scanner) (d : Dialect) (b : Buffer) (p : Nat) : TokenLine × Scanner :=
  match s.line with
  | some l => if l.start ≤ p ∧ p < l.stop then (l, s) else fresh
  | none => fresh
where
  /-- The line read anew, which the scanner then has at hand. -/
  fresh : TokenLine × Scanner := (d.lineAt b p, { s with line := some (d.lineAt b p) })

theorem lineAt_start_le (s : Scanner) (d : Dialect) (b : Buffer) (p : Nat) :
    (s.lineAt d b p).1.start ≤ p := by
  unfold lineAt
  split
  · split
    · rename_i h; exact h.1
    · exact d.lineAt_start_le b p
  · exact d.lineAt_start_le b p

theorem lineAt_lt_stop (s : Scanner) (d : Dialect) {b : Buffer} {p : Nat} (h : p < b.size) :
    p < (s.lineAt d b p).1.stop := by
  unfold lineAt
  split
  · split
    · rename_i h'; exact h'.2
    · exact d.lineAt_lt_stop h
  · exact d.lineAt_lt_stop h

/-- The first token that ends after offset `p`: the one `p` lies in, or the next one. -/
def next (s : Scanner) (d : Dialect) (b : Buffer) (p : Nat) : Token × Scanner :=
  if _h : p < b.size then
    if s.visit.exhausted then (Token.edgeAt p, s.visit)
    else
      let found := s.visit.lineAt d b p
      match found.1.tokens.find? (p < ·.stop) with
      | some t => (t, found.2)
      | none => found.2.next d b found.1.stop
  else (Token.edgeAt b.size, s)
termination_by b.size - p
decreasing_by
  have := s.visit.lineAt_lt_stop d _h
  omega

/-- The last token that starts before offset `p`, for `p` inside the buffer. -/
def prevWithin (s : Scanner) (d : Dialect) (b : Buffer) (p : Nat) : Token × Scanner :=
  if _h : p = 0 then (Token.edgeAt 0, s)
  else if s.visit.exhausted then (Token.edgeAt p, s.visit)
  else
    let found := s.visit.lineAt d b (p - 1)
    match found.1.tokens.reverse.find? (·.start < p) with
    | some t => (t, found.2)
    | none => found.2.prevWithin d b found.1.start
termination_by p
decreasing_by
  have := s.visit.lineAt_start_le d b (p - 1)
  omega

/-- The last token that starts before offset `p`. -/
def prev (s : Scanner) (d : Dialect) (b : Buffer) (p : Nat) : Token × Scanner :=
  s.prevWithin d b (min p b.size)

/-- The token after offset `p`, with the offset just after it. -/
def forward (s : Scanner) (d : Dialect) (b : Buffer) (p : Nat) : Token × Nat × Scanner :=
  let (t, s) := s.next d b p
  (t, t.stop, s)

/-- The token before offset `p`, with the offset where it starts. -/
def backward (s : Scanner) (d : Dialect) (b : Buffer) (p : Nat) : Token × Nat × Scanner :=
  let (t, s) := s.prev d b p
  (t, t.start, s)

/-- A token found ahead ends after the offset it was asked for at, which lies in the buffer. -/
theorem lt_stop_of_next (s : Scanner) (d : Dialect) (b : Buffer) (p : Nat)
    (h : (s.next d b p).1.kind ≠ .edge) : p < (s.next d b p).1.stop ∧ p < b.size := by
  fun_induction next s d b p with
  | case1 => simp [Token.edgeAt] at h
  | case2 s p hp _ found t ht => exact ⟨by simpa using List.find?_some ht, hp⟩
  | case3 s p hp _ found ht ih =>
    have hlt : p < found.1.stop := s.visit.lineAt_lt_stop d hp
    exact ⟨Nat.lt_trans hlt (ih h).1, hp⟩
  | case4 => simp [Token.edgeAt] at h

theorem start_lt_of_prevWithin (s : Scanner) (d : Dialect) (b : Buffer) (p : Nat)
    (h : (s.prevWithin d b p).1.kind ≠ .edge) : (s.prevWithin d b p).1.start < p := by
  fun_induction prevWithin s d b p with
  | case1 => simp [Token.edgeAt] at h
  | case2 => simp [Token.edgeAt] at h
  | case3 s p hp _ found t ht => simpa using List.find?_some ht
  | case4 s p hp _ found ht ih =>
    have hle : found.1.start ≤ p - 1 := s.visit.lineAt_start_le d b (p - 1)
    have := ih h
    omega

/-- A token found behind starts before the offset it was asked for at. -/
theorem start_lt_of_prev (s : Scanner) (d : Dialect) (b : Buffer) (p : Nat)
    (h : (s.prev d b p).1.kind ≠ .edge) : (s.prev d b p).1.start < p :=
  Nat.lt_of_lt_of_le (s.start_lt_of_prevWithin d b _ h) (Nat.min_le_left p b.size)

end Scanner

namespace Dialect

/-- The token at or after offset `p`, without a budget. -/
def classify (d : Dialect) (b : Buffer) (p : Nat) : Token := (Scanner.next {} d b p).1

end Dialect

end BlockScript
