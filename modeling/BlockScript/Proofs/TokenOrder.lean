/-
  The tokens of a text stand in order.

  `Laid` says it for anything that has a start and a stop: no stretch is empty, none starts before the
  one before it stops, and all lie between two offsets.  Pieces are never empty (`pieces_ne_nil`), so
  lexemes are laid out (`place_laid`); reading keeps that, as a token covers one lexeme or two
  neighbours (`read_laid`); and line after line the tokens of a text are laid out from its first byte to
  its last (`tokenizeFrom_laid`).
-/
import BlockScript.Token.Reading

namespace BlockScript

/-! ## Stretches in order -/

/-- Stretches in order up to offset `q`, from an offset on: none is empty, and none starts before the
    one before it stops. -/
def Laid {α : Type} (start stop : α → Nat) (q : Nat) : Nat → List α → Prop
  | p, [] => p ≤ q
  | p, a :: as => p ≤ start a ∧ start a < stop a ∧ Laid start stop q (stop a) as

namespace Laid

variable {α : Type} {start stop : α → Nat} {p q r : Nat} {a : α} {as bs : List α}

theorem le (h : Laid start stop q p as) : p ≤ q := by
  induction as generalizing p with
  | nil => exact h
  | cons a as ih =>
    obtain ⟨h1, h2, h3⟩ := h
    have := ih h3
    omega

/-- The space before the first stretch may be given up. -/
theorem of_le (hp : r ≤ p) (h : Laid start stop q p as) : Laid start stop q r as := by
  cases as with
  | nil => exact Nat.le_trans hp h
  | cons a as => exact ⟨Nat.le_trans hp h.1, h.2⟩

theorem append (h : Laid start stop q p as) (h' : Laid start stop r q bs) :
    Laid start stop r p (as ++ bs) := by
  induction as generalizing p with
  | nil => exact h'.of_le h
  | cons a as ih => exact ⟨h.1, h.2.1, ih h.2.2⟩

/-- Around any one of them the stretches fall apart into those before it and those after it. -/
theorem split (h : Laid start stop q p (as ++ a :: bs)) :
    Laid start stop (start a) p as ∧ start a < stop a ∧ Laid start stop q (stop a) bs := by
  induction as generalizing p with
  | nil => exact h
  | cons a' as ih => exact ⟨⟨h.1, h.2.1, (ih h.2.2).1⟩, (ih h.2.2).2⟩

/-- Every stretch lies within the bounds. -/
theorem bounds (h : Laid start stop q p as) (ha : a ∈ as) :
    p ≤ start a ∧ start a < stop a ∧ stop a ≤ q := by
  obtain ⟨as₁, as₂, rfl⟩ := List.append_of_mem ha
  obtain ⟨h1, h2, h3⟩ := h.split
  exact ⟨h1.le, h2, h3.le⟩

/-- A stretch stops where any later one starts, or before. -/
theorem pairwise (h : Laid start stop q p as) : as.Pairwise fun a b => stop a ≤ start b := by
  induction as generalizing p with
  | nil => exact .nil
  | cons a as ih => exact .cons (fun b hb => (h.2.2.bounds hb).1) (ih h.2.2)

/-- No two stretches share an offset. -/
theorem eq_of_mem {b : α} {o : Nat} (h : Laid start stop q p as) (ha : a ∈ as) (hb : b ∈ as)
    (hoa : start a ≤ o ∧ o < stop a) (hob : start b ≤ o ∧ o < stop b) : a = b := by
  obtain ⟨as₁, as₂, rfl⟩ := List.append_of_mem ha
  obtain ⟨h1, h2, h3⟩ := h.split
  rcases List.mem_append.1 hb with hb | hb
  · have := h1.bounds hb
    omega
  · rcases List.mem_cons.1 hb with rfl | hb
    · rfl
    · have := h3.bounds hb
      omega

/-- No stretch stands in two places. -/
theorem nodup (h : Laid start stop q p as) : as.Nodup := by
  induction as generalizing p with
  | nil => exact .nil
  | cons a as ih =>
    refine List.nodup_cons.2 ⟨fun ha => ?_, ih h.2.2⟩
    have := (h.2.2.bounds ha).1
    have := h.2.1
    omega

end Laid

/-- Tokens in order between two offsets. -/
abbrev Token.Laid (p q : Nat) (ts : List Token) : Prop := BlockScript.Laid Token.start Token.stop q p ts

/-- Lexemes in order between two offsets. -/
abbrev Lexeme.Laid (p q : Nat) (ls : List Lexeme) : Prop :=
  BlockScript.Laid Lexeme.start Lexeme.stop q p ls

/-! ## Pieces and lexemes -/

namespace Dialect

/-- No piece of a line is empty. -/
theorem pieces_ne_nil (d : Dialect) (before : Option Char) (t : Text) :
    ∀ q ∈ (d.pieces before t).1, q.text ≠ [] := by
  fun_induction pieces d before t with
  | case1 => simp
  | case2 => simp
  | case3 before c cs n kind h front ps rest heq ih =>
    intro q hq
    rcases List.mem_cons.1 hq with rfl | hq
    · have hn : n ≠ 0 := fun h0 => h (Or.inr h0)
      simp [front, hn]
    · exact ih q (by rw [heq]; exact hq)

end Dialect

/-- Lexemes take their places in order. -/
theorem place_laid (p : Nat) {ps : List Piece} (h : ∀ q ∈ ps, q.text ≠ []) :
    Lexeme.Laid p (p + Piece.totalSize ps) (place p ps) := by
  induction ps generalizing p with
  | nil => exact Nat.le_add_right p _
  | cons q ps ih =>
    obtain ⟨k, t⟩ := q
    have ht : 0 < t.size := Text.size_pos (h ⟨k, t⟩ (List.mem_cons_self ..))
    have hrest := ih (p + t.size) fun x hx => h x (List.mem_cons_of_mem _ hx)
    have hsum : p + t.size + Piece.totalSize ps = p + Piece.totalSize (⟨k, t⟩ :: ps) := by
      simp [Piece.totalSize, Nat.add_assoc]
    rw [hsum] at hrest
    rw [place]
    split
    · -- a lexeme: it covers its own text
      exact ⟨Nat.le_refl p, Nat.lt_add_of_pos_right ht, hrest⟩
    · exact hrest.of_le (Nat.le_add_right p _)

/-! ## Tokens -/

namespace Dialect

/-- A token covers one lexeme, or two that follow each other, so reading keeps the order. -/
theorem read_laid (d : Dialect) (header : Header) {p q : Nat} {ls : List Lexeme}
    (h : Lexeme.Laid p q ls) : Token.Laid p q (d.read header ls) := by
  fun_induction read d header ls generalizing p with
  | case1 => exact h
  | case8 => exact h
  | case9 header l _ bare named n ls' _ _ ih =>
    -- the word after a folding keyword ends the token
    obtain ⟨h1, h2, h3, h4, h5⟩ := h
    exact ⟨h1, Nat.lt_of_lt_of_le h2 (Nat.le_trans h3 (Nat.le_of_lt h4)), ih h5⟩
  | case2 _ _ _ _ ih | case3 _ _ _ _ ih | case4 _ _ _ _ ih | case5 _ _ _ _ ih | case6 _ _ _ ih
  | case7 _ _ _ _ _ ih | case10 _ _ _ _ _ _ _ _ _ ih | case11 _ _ _ _ _ _ _ _ ih =>
    exact ⟨h.1, h.2.1, ih h.2.2⟩

theorem ifKind_ne_edge (d : Dialect) (rest : List Lexeme) : d.ifKind rest ≠ .edge := by
  unfold ifKind
  split
  · simp
  · simp
  · split <;> simp

theorem wordKind_ne_edge (d : Dialect) (header : Header) (k : Option Keyword) (rest : List Lexeme) :
    (d.wordKind header k rest).1 ≠ .edge := by
  have hplain : plainKind rest ≠ .edge := by
    unfold plainKind
    split <;> simp
  unfold wordKind
  split
  case h_1 => exact d.ifKind_ne_edge rest
  case h_2 => split <;> simp
  case h_10 | h_11 =>
    -- `to` and `step` outside a header
    split
    · simp
    · exact hplain
  case h_12 => exact hplain
  all_goals simp

theorem folding_ne_edge {k : Keyword} {bare named : TokenKind} (h : k.folding = some (bare, named)) :
    bare ≠ .edge ∧ named ≠ .edge := by
  cases k <;> simp [Keyword.folding] at h <;> simp [← h.1, ← h.2]

/-- Reading gives no edge. -/
theorem read_ne_edge (d : Dialect) (header : Header) (ls : List Lexeme) :
    ∀ t ∈ d.read header ls, t.kind ≠ .edge := by
  have hfold : ∀ {l : Lexeme} {bare named : TokenKind},
      (d.keyword? l.text).bind Keyword.folding = some (bare, named) → bare ≠ .edge ∧ named ≠ .edge := by
    intro l bare named h
    obtain ⟨k, -, hk⟩ := Option.bind_eq_some_iff.1 h
    exact folding_ne_edge hk
  fun_induction read d header ls with
  | case1 => simp
  | case8 header l _ bare named hf =>
    intro t ht
    rw [List.mem_singleton.1 ht]
    exact (hfold hf).1
  | case9 header l _ bare named n ls' hf _ ih =>
    intro t ht
    rcases List.mem_cons.1 ht with rfl | ht
    · exact (hfold hf).2
    · exact ih t ht
  | case10 header l _ bare named n ls' hf _ ih =>
    intro t ht
    rcases List.mem_cons.1 ht with rfl | ht
    · exact (hfold hf).1
    · exact ih t ht
  | case11 header l _ ls hf kind header' hw ih =>
    intro t ht
    rcases List.mem_cons.1 ht with rfl | ht
    · have := d.wordKind_ne_edge header (d.keyword? l.text) ls
      rwa [hw] at this
    · exact ih t ht
  | case2 _ _ _ _ ih | case3 _ _ _ _ ih | case4 _ _ _ _ ih | case5 _ _ _ _ ih | case6 _ _ _ ih
  | case7 _ _ _ _ _ ih =>
    intro t ht
    rcases List.mem_cons.1 ht with rfl | ht
    · simp [Lexeme.token]
    · exact ih t ht

/-- The tokens of a line lie within it. -/
theorem tokensOf_laid (d : Dialect) (p : Nat) (before : Option Char) (t : Text) :
    Token.Laid p (p + Piece.totalSize (d.pieces before t).1)
      (d.tokensOf (place p (d.pieces before t).1)) :=
  d.read_laid .outside (place_laid p (d.pieces_ne_nil before t))

/-- The tokens of a text are laid out over all its lines. -/
theorem tokenizeFrom_laid (d : Dialect) (p : Nat) (t : Text) :
    Token.Laid p (p + t.size) (d.tokenizeFrom p t) := by
  fun_induction tokenizeFrom d p t with
  | case1 p => exact Nat.le_refl p
  | case2 p c cs line ih =>
    have hsize : p + Piece.totalSize line.1 + line.2.size = p + Text.size (c :: cs) := by
      rw [Piece.totalSize, Nat.add_assoc, ← Text.size_append, d.pieces_append none (c :: cs)]
    rw [hsize] at ih
    exact (d.tokensOf_laid p none (c :: cs)).append ih

theorem tokenize_laid (d : Dialect) (t : Text) : Token.Laid 0 t.size (d.tokenize t) := by
  have h := d.tokenizeFrom_laid 0 t
  rwa [Nat.zero_add] at h

/-- No token of a text is an edge. -/
theorem tokenize_ne_edge (d : Dialect) (t : Text) : ∀ x ∈ d.tokenize t, x.kind ≠ .edge := by
  unfold tokenize
  generalize 0 = p
  fun_induction tokenizeFrom d p t with
  | case1 => simp
  | case2 p c cs line ih =>
    intro x hx
    rcases List.mem_append.1 hx with hx | hx
    · exact d.read_ne_edge .outside _ x hx
    · exact ih x hx

end Dialect

end BlockScript
