/-
  What the tokens of a text cover.

  The lines of a text are cut into pieces that leave nothing out; `PieceAt` says which piece stands at
  which offset.  A piece of each kind holds what its kind says (`PieceAt.fits`).  A token is read off one
  piece, or off a keyword and the word after it (`exists_pieceAt_of_mem`), and every piece but blanks and
  comments is part of a token (`PieceAt.covered`).

  So the tokens cover all of a text but its blanks and comments, and no line break lies inside a token:
  that is `tokenize_partitions`, the main result here.
-/
import BlockScript.Proofs.LineLexing
import Mathlib.Data.List.Infix

namespace BlockScript

/-! ## Texts inside a text -/

namespace Text

variable {t w : Text} {p : Nat}

/-- Whether `w` stands in the text at offset `p`. -/
def HasAt (t : Text) (p : Nat) (w : Text) : Prop :=
  ∃ before after : Text, t = before ++ (w ++ after) ∧ before.size = p

namespace HasAt

theorem slice? (h : t.HasAt p w) : t.slice? p (p + w.size) = some w := by
  obtain ⟨before, after, rfl, rfl⟩ := h
  rw [Text.slice?, if_pos (Nat.le_add_right ..), splitAt?_size_append, Nat.add_sub_cancel_left]
  simp only [splitAt?_size_append, Option.map_some]

theorem slice (h : t.HasAt p w) : t.slice p (p + w.size) = w := by
  rw [Text.slice, h.slice?, Option.getD_some]

/-- A character within the bounds of a text that stands somewhere is one of its characters. -/
theorem mem {before rest : Text} {c : Char} (h : (before ++ c :: rest).HasAt p w)
    (h1 : p ≤ before.size) (h2 : before.size < p + w.size) : c ∈ w := by
  obtain ⟨a, after, heq, rfl⟩ := h
  rcases List.append_eq_append_iff.1 heq with ⟨x, rfl, hx⟩ | ⟨x, rfl, hx⟩
  · -- `w` starts where the character does
    obtain rfl : x = [] := by
      by_contra hne
      have := size_pos hne
      rw [size_append] at h1
      omega
    cases w with
    | nil =>
      rw [List.append_nil, size_nil] at h2
      omega
    | cons y w =>
      rw [List.nil_append, List.cons_append] at hx
      rw [(List.cons.inj hx).1]
      exact List.mem_cons_self ..
  · rw [size_append] at h2
    rcases List.append_eq_append_iff.1 hx with ⟨y, rfl, -⟩ | ⟨y, rfl, hy⟩
    · rw [size_append] at h2
      omega
    · cases y with
      | nil =>
        rw [List.append_nil] at h2
        omega
      | cons y' y =>
        rw [(List.cons.inj hy).1]
        simp

theorem isBoundary_start (h : t.HasAt p w) : t.isBoundary p := by
  obtain ⟨before, after, rfl, rfl⟩ := h
  rw [isBoundary, splitAt?_size_append, Option.isSome_some]

theorem isBoundary_stop (h : t.HasAt p w) : t.isBoundary (p + w.size) := by
  obtain ⟨before, after, rfl, rfl⟩ := h
  rw [← List.append_assoc, ← size_append, isBoundary, splitAt?_size_append, Option.isSome_some]

end HasAt

end Text

/-! ## What a piece holds -/

/-- Blanks of a line are blanks. -/
theorem CharClass.isBlank_of_eq_blank {c : Char} (h : of c = .blank) : isBlank c := by
  unfold of at h
  split at h
  · have hc : c = ' ' ∨ c = '\t' ∨ c = '\r' ∨ c = '\x0b' ∨ c = '\x0c' := by grind [ofAscii]
    rcases hc with rfl | rfl | rfl | rfl | rfl <;> decide
  · grind

namespace Dialect

variable {d : Dialect}

/-- What a piece at the front of `t`, which follows `before`, holds by its kind. -/
def Fits (d : Dialect) (before : Option Char) (t : Text) (q : Piece) : Prop :=
  match q.kind with
  | .newline => q.text = ['\n']
  | .blank => ∃ c, q.text = [c] ∧ CharClass.of c = .blank
  | .comment => d.classHere before t = .comment ∧ q.text = t.takeWhile (· ≠ '\n')
  | .word => ∀ c ∈ q.text, isScriptWord c
  | .symbol | .equals | .string | .semicolon => ∀ c ∈ q.text, c ≠ '\n'

/-- A character of a class other than comments has that class whatever stands around it. -/
theorem of_eq_of_classHere {before : Option Char} {c : Char} {cs : Text} {k : CharClass}
    (h : d.classHere before (c :: cs) = k) (hk : k ≠ .comment) : CharClass.of c = k := by
  rw [classHere] at h
  split at h
  · exact absurd h.symm hk
  · exact h

theorem run_isScriptWord (before : Char) (t : Text) :
    ∀ c ∈ t.take (d.run .word before t), isScriptWord c := by
  induction t generalizing before with
  | nil => simp
  | cons c cs ih =>
    rw [run]
    split
    case isTrue h =>
      intro x hx
      rcases List.mem_cons.1 (by simpa using hx) with rfl | hx
      · simp [isScriptWord, of_eq_of_classHere h]
      · exact ih c x hx
    case isFalse => simp

/-- What is cut off the front of a text fits its kind. -/
theorem cut_fits (d : Dialect) (before : Option Char) (c : Char) (cs : Text) :
    d.Fits before (c :: cs) ⟨(d.cut before c cs).1, (c :: cs).take (d.cut before c cs).2⟩ := by
  have hbreak := d.cut_noBreak before c cs
  unfold cut at hbreak ⊢
  cases hk : d.classHere before (c :: cs) with
  | newline =>
    have hc : c = '\n' := CharClass.eq_newline_of_of (of_eq_of_classHere hk (by simp))
    show [c] = ['\n']
    rw [hc]
  | blank => exact ⟨c, rfl, of_eq_of_classHere hk (by simp)⟩
  | comment => exact ⟨hk, (List.prefix_iff_eq_take.1 (List.takeWhile_prefix _)).symm⟩
  | word =>
    show ∀ x ∈ (c :: cs).take (d.run .word c cs + 1), isScriptWord x
    intro x hx
    rw [List.take_succ_cons] at hx
    rcases List.mem_cons.1 hx with rfl | hx
    · simp [isScriptWord, of_eq_of_classHere hk]
    · exact run_isScriptWord c cs x hx
  | separator | quote =>
    rw [hk] at hbreak
    exact hbreak (by simp)
  | symbol =>
    simp only [hk] at hbreak ⊢
    by_cases heq : c = '=' && cs.head? ≠ some '='
    · rw [if_pos heq] at hbreak ⊢
      exact hbreak (by simp)
    · rw [if_neg heq] at hbreak ⊢
      exact hbreak (by simp)

/-- Unless a line break opens comments, nothing that is cut off is empty. -/
theorem cut_ne_zero (hm : d.marker.head? ≠ some '\n') (before : Option Char) (c : Char) (cs : Text) :
    (d.cut before c cs).2 ≠ 0 := by
  unfold cut
  cases hk : d.classHere before (c :: cs) with
  | comment =>
    have hc : c ≠ '\n' := by
      rintro rfl
      rw [classHere] at hk
      split at hk
      · next hopens =>
        simp only [opensComment, Bool.and_eq_true] at hopens
        obtain ⟨⟨hne, hpre⟩, -⟩ := hopens
        cases hmarker : d.marker with
        | nil => simp [hmarker] at hne
        | cons m ms =>
          rw [hmarker] at hm hpre
          simp only [List.isPrefixOf_cons_cons, Bool.and_eq_true, beq_iff_eq] at hpre
          simp [hpre.1] at hm
      · rw [CharClass.of_newline] at hk
        cases hk
    simp [hc]
  | symbol =>
    dsimp only
    split <;> simp
  | _ => simp

theorem Fits.congr_before {before before' : Option Char} {t : Text} {q : Piece} (hq : d.Fits before t q)
    (h : before.any isScriptWord = before'.any isScriptWord) : d.Fits before' t q := by
  unfold Fits at hq ⊢
  rwa [← classHere_congr_before h]

/-- Only the piece that is a line break holds one. -/
theorem Fits.noBreak {before : Option Char} {t : Text} {q : Piece} (hq : d.Fits before t q)
    (hk : q.kind ≠ .newline) : ∀ c ∈ q.text, c ≠ '\n' := by
  obtain ⟨k, w⟩ := q
  cases k with
  | newline => exact absurd rfl hk
  | blank =>
    obtain ⟨c, rfl, hc⟩ := hq
    rintro x hx rfl
    rw [← List.mem_singleton.1 hx, CharClass.of_newline] at hc
    cases hc
  | comment =>
    intro c hc
    rw [hq.2] at hc
    simpa using List.all_eq_true.1 List.all_takeWhile c hc
  | word =>
    rintro c hc rfl
    exact absurd (hq _ hc) (by decide)
  | symbol | equals | string | semicolon => exact hq

/-- Every piece of a line fits its kind where it stands. -/
theorem pieces_fit (hm : d.marker.head? ≠ some '\n') (before : Option Char) (t : Text) :
    ∀ (front : List Piece) (q : Piece) (back : List Piece), (d.pieces before t).1 = front ++ q :: back →
      ∃ rest, t = front.flatMap Piece.text ++ rest ∧
        d.Fits ((front.flatMap Piece.text).getLast?.or before) rest q := by
  fun_induction pieces d before t with
  | case1 => simp
  | case2 before c cs n kind hstop =>
    intro front q back hps
    -- the line break is the last piece of its line
    obtain ⟨rfl, rfl⟩ : front = [] ∧ q = ⟨kind, [c]⟩ := by
      cases front with
      | nil => simp_all
      | cons x xs => simp at hps
    have hk : kind = .newline := hstop.resolve_right (cut_ne_zero hm before c cs)
    refine ⟨c :: cs, rfl, ?_⟩
    show d.Fits before (c :: cs) ⟨kind, [c]⟩
    rw [hk, d.cut_stops before c cs hstop]
    rfl
  | case3 before c cs n kind hgo piece ps rest heq ih =>
    intro front q back hps
    have hn : n ≠ 0 := fun h0 => hgo (Or.inr h0)
    cases front with
    | nil =>
      obtain ⟨rfl, -⟩ := List.cons.inj hps
      exact ⟨c :: cs, rfl, d.cut_fits before c cs⟩
    | cons x front =>
      obtain ⟨rfl, hback⟩ := List.cons.inj hps
      obtain ⟨rest', hrest, hfits⟩ := ih front q back (by rw [heq]; exact hback)
      refine ⟨rest', ?_, ?_⟩
      · rw [List.flatMap_cons, List.append_assoc, ← hrest, List.take_append_drop]
      · obtain ⟨y, hy⟩ : ∃ y, piece.getLast? = some y :=
          ⟨_, List.getLast?_eq_some_getLast (by simp [piece, hn])⟩
        rw [hy] at hfits
        rw [List.flatMap_cons, List.getLast?_append, hy, Option.or_assoc, Option.some_or]
        exact hfits

/-! ## Pieces of a text -/

/-- Whether `q` is a piece of the text at offset `p`: one of those that its lines are cut into. -/
def PieceAt (d : Dialect) (t : Text) (p : Nat) (q : Piece) : Prop :=
  ∃ (before rest : Text) (front back : List Piece), t = before ++ rest ∧ before.EndsLine ∧
    (d.pieces none rest).1 = front ++ q :: back ∧ p = before.size + Piece.totalSize front

end Dialect

/-- Pieces leave nothing out: every offset within them lies in one. -/
theorem Piece.exists_at {ps : List Piece} {p : Nat} (h : p < totalSize ps) :
    ∃ front q back, ps = front ++ q :: back ∧ totalSize front ≤ p ∧
      p < totalSize front + q.text.size := by
  induction ps generalizing p with
  | nil => exact absurd h (Nat.not_lt_zero p)
  | cons q ps ih =>
    by_cases hq : p < q.text.size
    · exact ⟨[], q, ps, rfl, Nat.zero_le p, by rwa [show totalSize [] = 0 from rfl, Nat.zero_add]⟩
    · rw [totalSize_cons] at h
      obtain ⟨front, q', back, rfl, h1, h2⟩ := ih (p := p - q.text.size) (by omega)
      refine ⟨q :: front, q', back, rfl, ?_, ?_⟩ <;> rw [totalSize_cons] <;> omega

/-- Lexemes are the pieces that are neither blanks nor comments, where they stand. -/
theorem mem_place {p : Nat} {ps : List Piece} {l : Lexeme} :
    l ∈ place p ps ↔ ∃ front q back, ps = front ++ q :: back ∧ q.kind.lexeme? = some l.kind ∧
      l.start = p + Piece.totalSize front ∧ l.text = q.text := by
  induction ps generalizing p with
  | nil => simp [place]
  | cons x ps ih =>
    rw [place_cons, List.mem_append, ih]
    constructor
    · rintro (hl | ⟨front, q, back, rfl, hk, hstart, htext⟩)
      · obtain ⟨k, hk, rfl⟩ := Option.map_eq_some_iff.1 (Option.mem_toList.1 hl)
        exact ⟨[], x, ps, rfl, hk, rfl, rfl⟩
      · refine ⟨x :: front, q, back, rfl, hk, ?_, htext⟩
        rw [hstart, Piece.totalSize_cons, Nat.add_assoc]
    · rintro ⟨front, q, back, h, hk, hstart, htext⟩
      cases front with
      | nil =>
        obtain ⟨rfl, rfl⟩ := List.cons.inj h
        left
        refine Option.mem_toList.2 (Option.map_eq_some_iff.2 ⟨l.kind, hk, ?_⟩)
        rw [← htext, ← show l.start = p from hstart]
      | cons y front =>
        obtain ⟨rfl, rfl⟩ := List.cons.inj h
        right
        refine ⟨front, q, back, rfl, hk, ?_, htext⟩
        rw [hstart, Piece.totalSize_cons, Nat.add_assoc]

namespace Dialect

variable {d : Dialect} {t : Text} {p : Nat} {q : Piece}

/-- A piece of the line that follows `before` stands where the pieces before it end. -/
theorem hasAt_of_pieces (before : Text) {x : Option Char} {rest : Text} {front back : List Piece}
    (hps : (d.pieces x rest).1 = front ++ q :: back) :
    (before ++ rest).HasAt (before.size + Piece.totalSize front) q.text := by
  have hall := d.pieces_append x rest
  rw [hps, List.flatMap_append, List.flatMap_cons] at hall
  refine ⟨before ++ front.flatMap Piece.text, back.flatMap Piece.text ++ (d.pieces x rest).2, ?_, ?_⟩
  · simp only [List.append_assoc] at hall ⊢
    rw [hall]
  · rw [Text.size_append, Piece.totalSize]

namespace PieceAt

theorem hasAt (h : d.PieceAt t p q) : t.HasAt p q.text := by
  obtain ⟨before, rest, front, back, rfl, -, hps, rfl⟩ := h
  exact hasAt_of_pieces before hps

theorem text_ne_nil (h : d.PieceAt t p q) : q.text ≠ [] := by
  obtain ⟨before, rest, front, back, rfl, -, hps, rfl⟩ := h
  exact d.pieces_ne_nil none rest q (by rw [hps]; simp)

/-- What a piece holds by its kind, in terms of the whole text. -/
theorem fits (h : d.PieceAt t p q) (hm : d.marker.head? ≠ some '\n') :
    ∃ before rest, t = before ++ rest ∧ before.size = p ∧ d.Fits before.getLast? rest q := by
  obtain ⟨before, rest, front, back, rfl, hl, hps, rfl⟩ := h
  obtain ⟨rest', rfl, hfits⟩ := pieces_fit hm none rest front q back hps
  refine ⟨before ++ front.flatMap Piece.text, rest', by rw [List.append_assoc],
    by rw [Text.size_append, Piece.totalSize], ?_⟩
  -- at the start of a line nothing is seen before it; the break that stands there is no word character
  refine hfits.congr_before ?_
  rw [List.getLast?_append]
  cases (front.flatMap Piece.text).getLast? with
  | some c => rfl
  | none => exact (any_isScriptWord_of_endsLine hl).symm

end PieceAt

end Dialect

/-! ## Tokens and lexemes -/

/-- Tokens read off lexemes from the left: each off one lexeme, or off a keyword and the word right
    after it.  Only single words become variables, and a line break becomes a separator. -/
inductive ReadOff : List Lexeme → List Token → Prop
  | nil : ReadOff [] []
  | one {l : Lexeme} {ls : List Lexeme} {ts : List Token} (k : TokenKind)
      (hvar : k = .var → l.kind = .word) (hbreak : l.kind = .newline → k = .separator)
      (rest : ReadOff ls ts) : ReadOff (l :: ls) (l.token k :: ts)
  | two {l n : Lexeme} {ls : List Lexeme} {ts : List Token} (k : TokenKind) (hvar : k ≠ .var)
      (hl : l.kind = .word) (hn : n.kind = .word) (rest : ReadOff ls ts) :
      ReadOff (l :: n :: ls) (l.tokenNamed k n :: ts)

/-- Reading a line reads its tokens off its lexemes. -/
theorem Dialect.readOff_read (d : Dialect) (header : Header) (ls : List Lexeme) :
    ReadOff ls (d.read header ls) := by
  fun_induction read d header ls with
  | case1 => exact .nil
  | case2 header l ls hk ih | case3 header l ls hk ih =>
    exact .one _ (fun h => by cases h) (fun _ => rfl) ih
  | case4 header l ls hk ih | case5 header l ls hk ih | case6 l ls hk ih | case7 header l ls hk hne ih =>
    refine .one _ (fun h => by cases h) (fun h => ?_) ih
    rw [hk] at h
    cases h
  | case8 header l hk bare named hfold =>
    exact .one _ (fun _ => hk) (fun h => by rw [hk] at h; cases h) .nil
  | case9 header l hk bare named n ls' hfold hn ih =>
    have hvar : named ≠ .var := by
      rintro rfl
      obtain ⟨k, -, hk'⟩ := Option.bind_eq_some_iff.1 hfold
      cases k <;> cases hk'
    exact .two _ hvar hk hn ih
  | case10 header l hk bare named n ls' hfold hn ih | case11 header l hk ls hfold kind header' hword ih =>
    exact .one _ (fun _ => hk) (fun h => by rw [hk] at h; cases h) ih

namespace ReadOff

variable {ls : List Lexeme} {ts : List Token} {a b : Nat}

/-- Every token is read off a lexeme, or off two in a row. -/
theorem origin (h : ReadOff ls ts) (hlaid : Lexeme.Laid a b ls) {x : Token} (hx : x ∈ ts) :
    (∃ l ∈ ls, x = l.token x.kind ∧ (x.kind = .var → l.kind = .word)) ∨
      ∃ l ∈ ls, ∃ n ∈ ls, n.kind = .word ∧ l.start < n.start ∧ x = l.tokenNamed x.kind n ∧ x.kind ≠ .var := by
  induction h generalizing a with
  | nil => cases hx
  | @one l ls ts k hvar hbreak rest ih =>
    rcases List.mem_cons.1 hx with rfl | hx
    · exact Or.inl ⟨l, List.mem_cons_self .., rfl, hvar⟩
    · rcases ih hlaid.2.2 hx with ⟨l', hl', h⟩ | ⟨l', hl', n', hn', h⟩
      · exact Or.inl ⟨l', List.mem_cons_of_mem _ hl', h⟩
      · exact Or.inr ⟨l', List.mem_cons_of_mem _ hl', n', List.mem_cons_of_mem _ hn', h⟩
  | @two l n ls ts k hvar hl hn rest ih =>
    obtain ⟨-, h2, h3, -, h5⟩ := hlaid
    rcases List.mem_cons.1 hx with rfl | hx
    · exact Or.inr ⟨l, by simp, n, by simp, hn, Nat.lt_of_lt_of_le h2 h3, rfl, hvar⟩
    · rcases ih h5 hx with ⟨l', hl', h⟩ | ⟨l', hl', n', hn', h⟩
      · exact Or.inl ⟨l', by simp [hl'], h⟩
      · exact Or.inr ⟨l', by simp [hl'], n', by simp [hn'], h⟩

/-- Every lexeme is part of a token. -/
theorem covered (h : ReadOff ls ts) (hlaid : Lexeme.Laid a b ls) {l : Lexeme} (hl : l ∈ ls) :
    ∃ x ∈ ts, x.start ≤ l.start ∧ l.stop ≤ x.stop := by
  induction h generalizing a with
  | nil => cases hl
  | @one l' ls ts k _ _ rest ih =>
    rcases List.mem_cons.1 hl with rfl | hl
    · exact ⟨l.token k, List.mem_cons_self .., Nat.le_refl _, Nat.le_refl _⟩
    · obtain ⟨x, hx, hin⟩ := ih hlaid.2.2 hl
      exact ⟨x, List.mem_cons_of_mem _ hx, hin⟩
  | @two l' n ls ts k _ _ _ rest ih =>
    -- the token reaches from the keyword over the word after it
    obtain ⟨-, h2, h3, h4, h5⟩ := hlaid
    simp only [List.mem_cons] at hl
    rcases hl with rfl | rfl | hl
    · exact ⟨l.tokenNamed k n, List.mem_cons_self .., Nat.le_refl _, Nat.le_trans h3 (Nat.le_of_lt h4)⟩
    · exact ⟨l'.tokenNamed k l, List.mem_cons_self .., Nat.le_trans (Nat.le_of_lt h2) h3, Nat.le_refl _⟩
    · obtain ⟨x, hx, hin⟩ := ih h5 hl
      exact ⟨x, List.mem_cons_of_mem _ hx, hin⟩

/-- A line break is a separator of its own. -/
theorem separator_mem (h : ReadOff ls ts) {l : Lexeme} (hl : l ∈ ls) (hk : l.kind = .newline) :
    l.token .separator ∈ ts := by
  induction h with
  | nil => cases hl
  | one k _ hbreak rest ih =>
    rcases List.mem_cons.1 hl with rfl | hl
    · rw [hbreak hk]
      exact List.mem_cons_self ..
    · exact List.mem_cons_of_mem _ (ih hl)
  | two k _ hl' hn rest ih =>
    simp only [List.mem_cons] at hl
    rcases hl with rfl | rfl | hl
    · rw [hk] at hl'
      cases hl'
    · rw [hk] at hn
      cases hn
    · exact List.mem_cons_of_mem _ (ih hl)

end ReadOff

/-! ## Tokens and pieces -/

namespace Dialect

variable {d : Dialect} {t : Text} {p : Nat} {q : Piece}

/-- The tokens of a text are those of its lines. -/
theorem mem_tokenize {x : Token} :
    x ∈ d.tokenize t ↔ ∃ before rest : Text, t = before ++ rest ∧ before.EndsLine ∧
      x ∈ d.tokensOf (place before.size (d.pieces none rest).1) := by
  constructor
  · intro hx
    have hbounds := (d.tokenize_laid t).bounds hx
    have hp : x.start < (Buffer.ofText t).size := by
      show x.start < t.size
      omega
    obtain ⟨before, ht, hsize, hl⟩ := t.lineAt_split x.start
    refine ⟨before, _, ht, hl, ?_⟩
    -- the token starts on the line it is looked up on, so it is one of that line's
    obtain ⟨pre, post, heq, hpre, -, hpost⟩ := d.tokenize_around hp
    have hle := d.lineAt_start_le (Buffer.ofText t) x.start
    have hlt := d.lineAt_lt_stop hp
    rw [Buffer.ofText_text] at heq
    rw [heq, List.mem_append, List.mem_append] at hx
    rcases hx with hx | hx | hx
    · have := hpre.bounds hx
      omega
    · rw [hsize]
      exact hx
    · have := hpost.bounds hx
      omega
  · rintro ⟨before, rest, rfl, hl, hx⟩
    obtain ⟨pre, heq, -⟩ := d.tokenizeFrom_append hl rest 0
    rw [tokenize, heq, Nat.zero_add]
    cases rest with
    | nil =>
      rw [pieces] at hx
      cases hx
    | cons c cs =>
      rw [tokenizeFrom]
      exact List.mem_append_right _ (List.mem_append_left _ hx)

/-- Offsets of a text lie in its pieces. -/
theorem exists_pieceAt (d : Dialect) (hp : p < t.size) :
    ∃ o q, d.PieceAt t o q ∧ o ≤ p ∧ p < o + q.text.size := by
  obtain ⟨before, ht, hsize, hl⟩ := t.lineAt_split p
  have hle := t.lineAt_start_le p
  have hlt := Text.lineAt_lt_stop hp
  have hin : p - before.size < Piece.totalSize (d.pieces none (t.lineAt p).2).1 := by
    rw [Piece.totalSize, d.pieces_text]
    omega
  obtain ⟨front, q, back, hps, h1, h2⟩ := Piece.exists_at hin
  exact ⟨before.size + Piece.totalSize front, q, ⟨before, _, front, back, ht, hl, hps, rfl⟩, by omega,
    by omega⟩

theorem pieceAt_of_mem_place {before rest : Text} (hl : before.EndsLine) {l : Lexeme}
    (h : l ∈ place before.size (d.pieces none rest).1) :
    ∃ q, d.PieceAt (before ++ rest) l.start q ∧ q.kind.lexeme? = some l.kind ∧ q.text = l.text := by
  obtain ⟨front, q, back, hps, hk, hstart, htext⟩ := mem_place.1 h
  exact ⟨q, ⟨before, rest, front, back, rfl, hl, hps, hstart⟩, hk, htext.symm⟩

theorem kind_eq_word (h : q.kind.lexeme? = some .word) : q.kind = .word := by
  cases hk : q.kind <;> simp [hk, PieceKind.lexeme?] at h ⊢

/-- A token is a piece, or reaches from a piece to the end of a word after it, its name.  A variable is a
    piece that is a word. -/
theorem exists_pieceAt_of_mem {x : Token} (hx : x ∈ d.tokenize t) :
    ∃ q, d.PieceAt t x.start q ∧
      ((x.stop = x.start + q.text.size ∧ x.name = none ∧ (x.kind = .var → q.kind = .word)) ∨
        ∃ o n, d.PieceAt t o n ∧ n.kind = .word ∧ x.start < o ∧ x.stop = o + n.text.size ∧
          x.name = some ⟨o, n.text⟩ ∧ x.kind ≠ .var) := by
  obtain ⟨before, rest, rfl, hl, hx⟩ := mem_tokenize.1 hx
  have hlaid := place_laid before.size (d.pieces_ne_nil none rest)
  rcases (d.readOff_read .outside _).origin hlaid hx with
    ⟨l, hmem, hx, hvar⟩ | ⟨l, hmem, n, hmem', hn, hlt, hx, hvar⟩
  · obtain ⟨q, hq, hk, htext⟩ := pieceAt_of_mem_place hl hmem
    rw [hx]
    refine ⟨q, hq, Or.inl ⟨?_, rfl, fun h => ?_⟩⟩
    · rw [htext]
      rfl
    · rw [hvar h] at hk
      exact kind_eq_word hk
  · obtain ⟨q, hq, -, -⟩ := pieceAt_of_mem_place hl hmem
    obtain ⟨q', hq', hk', htext'⟩ := pieceAt_of_mem_place hl hmem'
    rw [hx]
    refine ⟨q, hq, Or.inr ⟨n.start, q', hq', kind_eq_word (hn ▸ hk'), hlt, ?_, ?_, hvar⟩⟩
    · rw [htext']
      rfl
    · rw [htext']
      rfl

namespace PieceAt

theorem mem_place (h : d.PieceAt t p q) {k : LexemeKind} (hk : q.kind.lexeme? = some k) :
    ∃ before rest : Text, t = before ++ rest ∧ before.EndsLine ∧
      (⟨k, p, q.text⟩ : Lexeme) ∈ place before.size (d.pieces none rest).1 := by
  obtain ⟨before, rest, front, back, ht, hl, hps, rfl⟩ := h
  exact ⟨before, rest, ht, hl, BlockScript.mem_place.2 ⟨front, q, back, hps, hk, rfl, rfl⟩⟩

/-- Pieces other than blanks and comments are part of a token. -/
theorem covered (h : d.PieceAt t p q) {k : LexemeKind} (hk : q.kind.lexeme? = some k) :
    ∃ x ∈ d.tokenize t, x.start ≤ p ∧ p + q.text.size ≤ x.stop := by
  obtain ⟨before, rest, ht, hl, hmem⟩ := h.mem_place hk
  obtain ⟨x, hx, h1, h2⟩ := (d.readOff_read .outside _).covered
    (place_laid before.size (d.pieces_ne_nil none rest)) hmem
  exact ⟨x, mem_tokenize.2 ⟨before, rest, ht, hl, hx⟩, h1, h2⟩

/-- A line break is a separator. -/
theorem separator_mem (h : d.PieceAt t p q) (hk : q.kind = .newline) :
    (⟨.separator, p, p + q.text.size, none⟩ : Token) ∈ d.tokenize t := by
  obtain ⟨before, rest, ht, hl, hmem⟩ := h.mem_place (k := .newline) (by rw [hk]; rfl)
  exact mem_tokenize.2 ⟨before, rest, ht, hl, (d.readOff_read .outside _).separator_mem hmem rfl⟩

/-- At the line break of a text stands the piece that is a line break. -/
theorem eq_newline {before rest : Text} (h : d.PieceAt (before ++ '\n' :: rest) p q)
    (hm : d.marker.head? ≠ some '\n') (h1 : p ≤ before.size) (h2 : before.size < p + q.text.size) :
    p = before.size ∧ q = ⟨.newline, ['\n']⟩ := by
  have hmem : '\n' ∈ q.text := h.hasAt.mem h1 h2
  obtain ⟨a, c, -, -, hfits⟩ := h.fits hm
  have hk : q.kind = .newline := by
    by_contra hk
    exact hfits.noBreak hk _ hmem rfl
  have htext : q.text = ['\n'] := by
    rw [Fits, hk] at hfits
    exact hfits
  have hsize : q.text.size = 1 := by
    rw [htext]
    rfl
  exact ⟨by omega, by rw [← hk, ← htext]⟩

end PieceAt

/-! ## The partition -/

/-- How tokens partition a text.  Each covers characters of the text, none that another covers; a name
    is what its token ends with; every line break is a separator and in no other token; and what no
    token covers is a blank, or stands in a comment: after a piece that starts where a comment opens,
    and before the end of its line. -/
structure Partitions (d : Dialect) (t : Text) (ts : List Token) : Prop where
  inside : ∀ x ∈ ts, x.start < x.stop ∧ x.stop ≤ t.size ∧ t.isBoundary x.start ∧ t.isBoundary x.stop
  ordered : ts.Pairwise fun x y => x.stop ≤ y.start
  breaks : ∀ before rest, t = before ++ '\n' :: rest →
    ∃ x ∈ ts, x.kind = .separator ∧ x.start = before.size ∧ x.stop = before.size + 1 ∧
      ∀ y ∈ ts, y.start ≤ before.size ∧ before.size < y.stop → y = x
  names : ∀ x ∈ ts, ∀ n, x.name = some n →
    n.text ≠ [] ∧ x.start < n.start ∧ n.stop = x.stop ∧ t.slice? n.start n.stop = some n.text
  gaps : ∀ p < t.size, (∀ x ∈ ts, ¬(x.start ≤ p ∧ p < x.stop)) →
    (∃ (before : Text) (c : Char) (rest : Text), t = before ++ c :: rest ∧ before.size ≤ p ∧
      p < before.size + c.utf8Size ∧ isBlank c) ∨
    ∃ o q, d.PieceAt t o q ∧ d.classAt t o = .comment ∧ o ≤ p ∧ p < t.lineEnd o

/-- **The tokens of a text partition it**, unless a line break opens comments. -/
theorem tokenize_partitions (d : Dialect) (t : Text) (hm : d.marker.head? ≠ some '\n') :
    d.Partitions t (d.tokenize t) where
  inside x hx := by
    have hbounds := (d.tokenize_laid t).bounds hx
    obtain ⟨q, hq, ⟨hstop, -⟩ | ⟨o, n, hn, -, -, hstop, -⟩⟩ := exists_pieceAt_of_mem hx
    · exact ⟨hbounds.2.1, hbounds.2.2, hq.hasAt.isBoundary_start, hstop ▸ hq.hasAt.isBoundary_stop⟩
    · exact ⟨hbounds.2.1, hbounds.2.2, hq.hasAt.isBoundary_start, hstop ▸ hn.hasAt.isBoundary_stop⟩
  ordered := (d.tokenize_laid t).pairwise
  breaks before rest ht := by
    subst ht
    have hp : before.size < Text.size (before ++ '\n' :: rest) := by
      rw [Text.size_append]
      exact Nat.lt_add_of_pos_right (Text.size_pos (by simp))
    obtain ⟨o, q, hq, h1, h2⟩ := d.exists_pieceAt hp
    obtain ⟨rfl, rfl⟩ := hq.eq_newline hm h1 h2
    refine ⟨_, hq.separator_mem rfl, rfl, rfl, rfl, fun y hy hin => ?_⟩
    exact (d.tokenize_laid _).eq_of_mem hy (hq.separator_mem rfl) hin ⟨Nat.le_refl _, h2⟩
  names x hx n hn := by
    obtain ⟨q, -, ⟨-, hnone, -⟩ | ⟨o, q', hq', -, hlt, hstop, hname, -⟩⟩ := exists_pieceAt_of_mem hx
    · rw [hn] at hnone
      cases hnone
    · rw [hn] at hname
      obtain rfl := Option.some.inj hname
      exact ⟨hq'.text_ne_nil, hlt, hstop.symm, hq'.hasAt.slice?⟩
  gaps p hp hfree := by
    obtain ⟨o, q, hq, h1, h2⟩ := d.exists_pieceAt hp
    cases hk : q.kind.lexeme? with
    | some k =>
      obtain ⟨x, hx, h3, h4⟩ := hq.covered hk
      exact absurd ⟨by omega, by omega⟩ (hfree x hx)
    | none =>
      obtain ⟨before, rest, ht, hsize, hfits⟩ := hq.fits hm
      have hkind : q.kind = .blank ∨ q.kind = .comment := by
        cases hk' : q.kind <;> simp [hk', PieceKind.lexeme?] at hk ⊢
      rw [Fits] at hfits
      rcases hkind with hkind | hkind
      · rw [hkind] at hfits
        obtain ⟨c, htext, hc⟩ := hfits
        obtain ⟨a, after, ht', hsize'⟩ := hq.hasAt
        rw [htext] at ht' h2
        refine Or.inl ⟨a, c, after, ht', by omega, ?_, CharClass.isBlank_of_eq_blank hc⟩
        rw [Text.size_cons, Text.size_nil] at h2
        omega
      · rw [hkind] at hfits
        obtain ⟨hclass, htext⟩ := hfits
        refine Or.inr ⟨o, q, hq, ?_, h1, ?_⟩
        · rw [← hsize, ht, classAt, Text.splitAt?_size_append]
          exact hclass
        · rw [← hsize, ht, Text.lineEnd_append, ← htext, hsize]
          exact h2

/-- `rem` opens a comment, `remark` does not; the name of the block takes two bytes. -/
theorem tokenize_partitions_word_marker :
    let d : Dialect := { marker := "rem".toList }
    let t := "begin é rem x;\n remark".toList
    d.marker.head? ≠ some '\n' ∧
      d.tokenize t = [⟨.beginBlock, 0, 8, some ⟨6, ['é']⟩⟩, ⟨.separator, 15, 16, none⟩,
        ⟨.expr, 17, 23, none⟩] ∧
      d.Partitions t (d.tokenize t) := by
  intro d t
  have hm : d.marker.head? ≠ some '\n' := by decide
  exact ⟨hm, by decide +kernel, tokenize_partitions d t hm⟩

end Dialect

end BlockScript
