/-
  Lines are read one by one.

  A token moved by some bytes is the token of the moved text (`tokenizeFrom_shift`), and no line looks at
  another, so the tokens of a text are those of any lines it starts with, and those of the rest moved
  behind them: `tokenize_append`, the first result here.

  `reading` is what a token says apart from where it stands: its kind, the text it covers and the text of
  its name.  The readings of a text are those of its lines put together (`readings_append`), and blanks
  at its front do not show in them (`readings_lead`).
-/
import BlockScript.Proofs.TokenSpans

namespace BlockScript

/-! ## Moving tokens -/

namespace Lexeme

/-- The lexeme `n` bytes further on. -/
def shift (n : Nat) (l : Lexeme) : Lexeme := { l with start := l.start + n }

theorem shift_kind (n : Nat) (l : Lexeme) : (l.shift n).kind = l.kind := rfl

theorem shift_stop (n : Nat) (l : Lexeme) : (l.shift n).stop = l.stop + n := by
  show l.start + n + l.text.size = l.start + l.text.size + n
  omega

end Lexeme

namespace Token

/-- The token `n` bytes further on, its name with it. -/
def shift (n : Nat) (x : Token) : Token :=
  ⟨x.kind, x.start + n, x.stop + n, x.name.map fun m => ⟨m.start + n, m.text⟩⟩

theorem shift_token (n : Nat) (l : Lexeme) (k : TokenKind) :
    (l.shift n).token k = (l.token k).shift n := by
  show (⟨k, l.start + n, (l.shift n).stop, none⟩ : Token) = ⟨k, l.start + n, l.stop + n, none⟩
  rw [l.shift_stop]

theorem shift_tokenNamed (n : Nat) (l : Lexeme) (k : TokenKind) (m : Lexeme) :
    (l.shift n).tokenNamed k (m.shift n) = (l.tokenNamed k m).shift n := by
  show (⟨k, l.start + n, (m.shift n).stop, some ⟨m.start + n, m.text⟩⟩ : Token) =
    ⟨k, l.start + n, m.stop + n, some ⟨m.start + n, m.text⟩⟩
  rw [m.shift_stop]

end Token

theorem place_shift (p n : Nat) (ps : List Piece) : place (p + n) ps = (place p ps).map (Lexeme.shift n) := by
  induction ps generalizing p with
  | nil => rfl
  | cons q ps ih =>
    have hmove : p + n + q.text.size = p + q.text.size + n := by omega
    rw [place_cons, place_cons, hmove, ih, List.map_append]
    cases q.kind.lexeme? with
    | none => rfl
    | some k => rfl

namespace Dialect

variable {d : Dialect}

theorem tokensOf_shift (n : Nat) (ls : List Lexeme) :
    d.tokensOf (ls.map (Lexeme.shift n)) = (d.tokensOf ls).map (Token.shift n) := by
  have hread := read_map (d := d) (g := id) (Lexeme.shift_kind n) (fun l k => rfl)
    (Token.shift_token n) (Token.shift_tokenNamed n) .outside ls
  rwa [List.map_id] at hread

/-- **A text further on has its tokens further on.** -/
theorem tokenizeFrom_shift (p n : Nat) (t : Text) :
    d.tokenizeFrom (p + n) t = (d.tokenizeFrom p t).map (Token.shift n) := by
  fun_induction tokenizeFrom d p t with
  | case1 p => rw [tokenizeFrom_nil, List.map_nil]
  | case2 p c cs line ih =>
    have hmove : p + n + Piece.totalSize line.1 = p + Piece.totalSize line.1 + n := by omega
    rw [tokenizeFrom, List.map_append, ← ih, ← tokensOf_shift, ← place_shift, ← hmove]

/-- **Tokenizing is line-local.**  Behind a text that is empty or ends in a line break any text has the
    tokens it has alone, moved by the length of what stands before it; and what stands before it has the
    tokens it has alone. -/
theorem tokenize_append (d : Dialect) (a b : Text) (hm : '\n' ∉ d.marker) (ha : a.EndsLine) :
    d.tokenize (a ++ b) = d.tokenize a ++ (d.tokenize b).map (Token.shift a.size) := by
  rw [tokenize, tokenize, tokenize, tokenizeFrom_append_lines hm ha, tokenizeFrom_shift]

/-- A string left open, an `if` without its `then` and a loop header at the end of a line do not reach
    into the next one, at whose start a marker that is a word opens a comment. -/
theorem tokenize_append_open_line :
    let d : Dialect := { marker := "rem".toList }
    let a : Text := "if x for i = \"é\n".toList
    let b : Text := "rem to\nto remark then".toList
    '\n' ∉ d.marker ∧ a.EndsLine ∧
      d.tokenize b = [⟨.separator, 6, 7, none⟩, ⟨.expr, 7, 9, none⟩, ⟨.expr, 10, 16, none⟩,
        ⟨.thenWord, 17, 21, none⟩] ∧
      d.tokenize (a ++ b) = d.tokenize a ++ (d.tokenize b).map (Token.shift 17) := by
  intro d a b
  have hm : '\n' ∉ d.marker := by decide
  have ha : a.EndsLine := Or.inr (by decide)
  have happend := tokenize_append d a b hm ha
  exact ⟨hm, ha, by decide +kernel, happend⟩

end Dialect

/-! ## Cutting out of two texts put together -/

namespace Text

/-- Cuts within the first of two texts are made as if it stood alone. -/
theorem splitAt?_append_left {a : Text} {p : Nat} (h : p ≤ a.size) (b : Text) :
    splitAt? (a ++ b) p = (splitAt? a p).map fun c => (c.1, c.2 ++ b) := by
  fun_induction splitAt? a p with
  | case1 cs => cases cs <;> cases b <;> rfl
  | case2 p => simp at h
  | case3 c cs p hc ih =>
    have hrest : p + 1 - c.utf8Size ≤ size cs := by
      rw [size_cons] at h
      omega
    rw [List.cons_append, splitAt?, if_pos hc, ih hrest, Option.map_map, Option.map_map]
    rfl
  | case4 c cs p hc => rw [List.cons_append, splitAt?, if_neg hc, Option.map_none]

/-- Cuts within the second of two texts are made as if it stood alone. -/
theorem splitAt?_append_right (a b : Text) (p : Nat) :
    splitAt? (a ++ b) (p + a.size) = (splitAt? b p).map fun c => (a ++ c.1, c.2) := by
  induction a with
  | nil => simp
  | cons c cs ih =>
    have hpos := c.utf8Size_pos
    obtain ⟨n, hn⟩ : ∃ n, p + size (c :: cs) = n + 1 := ⟨p + size (c :: cs) - 1, by rw [size_cons]; omega⟩
    have hrest : n + 1 - c.utf8Size = p + size cs := by
      rw [size_cons] at hn
      omega
    have hc : c.utf8Size ≤ n + 1 := by
      rw [size_cons] at hn
      omega
    rw [hn, List.cons_append, splitAt?, if_pos hc, hrest, ih, Option.map_map]
    rfl

theorem slice?_append_left {a : Text} {start stop : Nat} (h : stop ≤ a.size) (b : Text) :
    slice? (a ++ b) start stop = slice? a start stop := by
  unfold slice?
  split
  case isFalse => rfl
  case isTrue hle =>
    rw [splitAt?_append_left (Nat.le_trans hle h)]
    cases hs : splitAt? a start with
    | none => rfl
    | some c =>
      obtain ⟨before, rest⟩ := c
      obtain ⟨rfl, rfl⟩ := splitAt?_append hs
      have hin : stop - before.size ≤ rest.size := by
        rw [size_append] at h
        omega
      simp only [Option.map_some]
      rw [splitAt?_append_left hin, Option.map_map]
      rfl

theorem slice?_append_right (a b : Text) (start stop : Nat) :
    slice? (a ++ b) (start + a.size) (stop + a.size) = slice? b start stop := by
  have hdiff : stop + a.size - (start + a.size) = stop - start := by omega
  unfold slice?
  rw [splitAt?_append_right, hdiff]
  by_cases hle : start ≤ stop
  · rw [if_pos hle, if_pos (by omega)]
    cases splitAt? b start with
    | none => rfl
    | some c => rfl
  · rw [if_neg hle, if_neg (by omega)]

end Text

/-! ## What tokens say -/

namespace Token

/-- What a token of a text says, wherever it stands: its kind, the text it covers, and the text of its
    name. -/
def reading (x : Token) (t : Text) : TokenKind × Text × Option Text :=
  (x.kind, x.textIn t, x.name.map fun n => t.slice n.start n.stop)

theorem reading_shift (x : Token) (a b : Text) : (x.shift a.size).reading (a ++ b) = x.reading b := by
  have hname : ∀ n : Name, Name.stop ⟨n.start + a.size, n.text⟩ = n.stop + a.size := by
    intro n
    show n.start + a.size + n.text.size = n.start + n.text.size + a.size
    omega
  show (x.kind, Text.slice (a ++ b) (x.start + a.size) (x.stop + a.size), _) = x.reading b
  rw [reading, textIn, Text.slice, Text.slice, Text.slice?_append_right, shift, Option.map_map]
  congr 3
  funext n
  simp only [Function.comp, Text.slice, hname, Text.slice?_append_right]

theorem reading_append {x : Token} {a : Text} (hstop : x.stop ≤ a.size)
    (hname : ∀ n, x.name = some n → n.stop = x.stop) (b : Text) : x.reading (a ++ b) = x.reading a := by
  rw [reading, reading, textIn, textIn, Text.slice, Text.slice, Text.slice?_append_left hstop]
  cases hn : x.name with
  | none => rfl
  | some n =>
    have hin : n.stop ≤ a.size := by
      rw [hname n hn]
      exact hstop
    rw [Option.map_some, Option.map_some, Text.slice, Text.slice, Text.slice?_append_left hin]

end Token

namespace Dialect

variable {d : Dialect}

/-- What the tokens of a text say, in order. -/
def readings (d : Dialect) (t : Text) : List (TokenKind × Text × Option Text) :=
  (d.tokenize t).map (·.reading t)

/-- A name ends where its token does. -/
theorem stop_eq_of_name {t : Text} {x : Token} (hx : x ∈ d.tokenize t) {n : Name} (hn : x.name = some n) :
    n.stop = x.stop := by
  obtain ⟨q, -, ⟨-, hnone, -⟩ | ⟨o, m, -, -, -, hstop, hname, -⟩⟩ := exists_pieceAt_of_mem hx
  · rw [hn] at hnone
    cases hnone
  · rw [hn] at hname
    obtain rfl := Option.some.inj hname
    exact hstop.symm

/-- Tokens of a text that stands behind another say what they say where it stands alone. -/
theorem map_reading_shift (a b : Text) :
    ((d.tokenize b).map (Token.shift a.size)).map (·.reading (a ++ b)) = d.readings b := by
  rw [List.map_map]
  exact List.map_congr_left fun x _ => x.reading_shift a b

/-- Tokens of a text say the same where more text stands behind it. -/
theorem map_reading_append (a b : Text) : (d.tokenize a).map (·.reading (a ++ b)) = d.readings a := by
  refine List.map_congr_left fun x hx => ?_
  have hbounds := (d.tokenize_laid a).bounds hx
  exact Token.reading_append hbounds.2.2 (fun n hn => stop_eq_of_name hx hn) b

/-- **What the lines of a text say, each says alone.** -/
theorem readings_append (hm : '\n' ∉ d.marker) {a : Text} (ha : a.EndsLine) (b : Text) :
    d.readings (a ++ b) = d.readings a ++ d.readings b := by
  rw [readings, tokenize, tokenizeFrom_append_lines hm ha, tokenizeFrom_shift, List.map_append]
  exact congrArg₂ (· ++ ·) (map_reading_append a b) (map_reading_shift a b)

theorem tokenizeFrom_blank (hm : ∀ c ∈ d.marker, ¬isBlank c) {c : Char} (hb : isBlank c) (hc : c ≠ '\n')
    (p : Nat) (t : Text) : d.tokenizeFrom p (c :: t) = d.tokenizeFrom (p + c.utf8Size) t := by
  have hsize : ∀ ps, p + Piece.totalSize (⟨.blank, [c]⟩ :: ps) = p + c.utf8Size + Piece.totalSize ps := by
    intro ps
    rw [Piece.totalSize_cons, Text.size_cons, Text.size_nil]
    omega
  rw [tokenizeFrom, pieces_blank hm hb hc]
  simp only [hsize, place_cons]
  cases t with
  | nil =>
    rw [pieces, tokenizeFrom_nil, tokenizeFrom_nil]
    rfl
  | cons c' cs =>
    rw [tokenizeFrom]
    rfl

/-- **Blanks at the front of a text do not show in what its tokens say.** -/
theorem readings_lead (hm : ∀ c ∈ d.marker, ¬isBlank c) {lead : Text}
    (hlead : ∀ c ∈ lead, isBlank c ∧ c ≠ '\n') (t : Text) : d.readings (lead ++ t) = d.readings t := by
  have hmove : ∀ p, d.tokenizeFrom p (lead ++ t) = d.tokenizeFrom (p + lead.size) t := by
    induction lead with
    | nil => exact fun p => rfl
    | cons c lead ih =>
      intro p
      obtain ⟨hb, hc⟩ := hlead c (List.mem_cons_self ..)
      rw [List.cons_append, tokenizeFrom_blank hm hb hc, ih fun x hx => hlead x (List.mem_cons_of_mem _ hx),
        Text.size_cons, Nat.add_assoc]
  rw [readings, tokenize, hmove, tokenizeFrom_shift]
  exact map_reading_shift lead t

end Dialect

end BlockScript
