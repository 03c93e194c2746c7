/-
  Texts with their ASCII letters in lower case.

  Where the marker has no letters, the case of ASCII letters decides nothing about the lines and pieces of
  a text, and where keywords ignore it, nothing about its tokens.  So instead of comparing two texts that
  differ in case, each is compared with its own lowering, step by step along the program:

  1. `lower` keeps the class of a character, the length of its UTF-8 form and every character that is no
     letter (`of_toLower`, `utf8Size_toLower`, `toLower_eq_iff`).
  2. Hence the same comment opens, the same characters are cut off, and the pieces of a lowered text are the
     lowered pieces (`pieces_lower`).
  3. A lowered word spells the same keywords, so the tokens of a lowered text are the lowered tokens
     (`tokenize_lower`); kinds and offsets are those of before, and only names are spelled anew.

  Two texts are the same up to case if their lowerings are the same (`sameLetters_iff`).
-/
import BlockScript.Proofs.TokenSpans

namespace BlockScript

/-! ## Characters -/

/-- The letters that have a lower case. -/
def upperLetters : Text := "ABCDEFGHIJKLMNOPQRSTUVWXYZ".toList

/-- Every character is its own lower case or an upper case letter. -/
theorem toLower_eq_or_mem (c : Char) : c.toLower = c ∨ c ∈ upperLetters := by
  by_cases h : 65 ≤ c.toNat ∧ c.toNat ≤ 90
  · right
    have hall : (List.range' 65 26).all (fun n => upperLetters.contains (Char.ofNat n)) = true := by decide
    have hmem : c.toNat ∈ List.range' 65 26 := by
      rw [List.mem_range'_1]
      omega
    have := List.all_eq_true.1 hall _ hmem
    rwa [Char.ofNat_toNat, List.contains_iff_mem] at this
  · left
    exact dif_neg h

/-- What holds between a character and itself, and between an upper case letter and its lower case, holds
    between every character and its lower case. -/
theorem toLower_rec {r : Char → Char → Bool} (same : ∀ c, r c c)
    (upper : upperLetters.all (fun c => r c c.toLower) = true) (c : Char) : r c c.toLower := by
  rcases toLower_eq_or_mem c with h | h
  · rw [h]
    exact same c
  · exact List.all_eq_true.1 upper c h

theorem utf8Size_toLower (c : Char) : c.toLower.utf8Size = c.utf8Size := by
  have h := toLower_rec (r := fun c c' => c'.utf8Size == c.utf8Size) (by simp) (by decide) c
  exact beq_iff_eq.1 h

theorem of_toLower (c : Char) : CharClass.of c.toLower = CharClass.of c := by
  have h := toLower_rec (r := fun c c' => CharClass.of c' == CharClass.of c) (by simp) (by decide +kernel) c
  exact beq_iff_eq.1 h

theorem toLower_toLower (c : Char) : c.toLower.toLower = c.toLower := by
  have h := toLower_rec (r := fun c c' => c'.toLower == c.toLower) (by simp) (by decide +kernel) c
  exact beq_iff_eq.1 h

/-- A character that is no letter is the lower case of itself only. -/
theorem toLower_eq_iff {x : Char} (hx : ¬x.isAlpha) (c : Char) : c.toLower = x ↔ c = x := by
  rcases toLower_eq_or_mem c with h | h
  · rw [h]
  · have hall : upperLetters.all (fun c => c.isAlpha && c.toLower.isAlpha) = true := by decide
    have hc := List.all_eq_true.1 hall c h
    rw [Bool.and_eq_true] at hc
    constructor
    · rintro rfl
      exact absurd hc.2 hx
    · rintro rfl
      exact absurd hc.1 hx

/-- A quote is no letter. -/
theorem CharClass.not_isAlpha_of_quote {c : Char} (h : of c = .quote) : ¬c.isAlpha := by
  have hc : c = '"' ∨ c = '\'' := by grind [of, ofAscii]
  rcases hc with rfl | rfl <;> decide

/-! ## Texts -/

namespace Text

/-- The text with its ASCII letters in lower case. -/
def lower (t : Text) : Text := t.map Char.toLower

@[simp] theorem lower_nil : lower [] = [] := rfl

@[simp] theorem lower_cons (c : Char) (cs : Text) : lower (c :: cs) = c.toLower :: lower cs := rfl

@[simp] theorem size_lower (t : Text) : (lower t).size = t.size := by
  induction t with
  | nil => rfl
  | cons c cs ih => rw [lower_cons, size_cons, size_cons, ih, utf8Size_toLower]

theorem lower_lower (t : Text) : lower (lower t) = lower t := by
  rw [lower, lower, List.map_map]
  exact List.map_congr_left fun c _ => toLower_toLower c

/-- A text without letters is at the front of a text if it is at the front of its lowering. -/
theorem isPrefixOf_lower {m : Text} (hm : ∀ c ∈ m, ¬c.isAlpha) (t : Text) :
    m.isPrefixOf (lower t) = m.isPrefixOf t := by
  induction m generalizing t with
  | nil => rfl
  | cons x m ih =>
    cases t with
    | nil => rfl
    | cons c cs =>
      have hx : (x == c.toLower) = (x == c) := by
        rw [Bool.eq_iff_iff, beq_iff_eq, beq_iff_eq, eq_comm, toLower_eq_iff (hm x List.mem_cons_self), eq_comm]
      rw [lower_cons, List.isPrefixOf, List.isPrefixOf, hx, ih fun y hy => hm y (List.mem_cons_of_mem x hy)]

theorem lineAt_lower (t : Text) (p : Nat) :
    lineAt (lower t) p = ((lineAt t p).1, lower (lineAt t p).2) := by
  have hfind (t : Text) : ∀ (off : Nat) (line : Nat × Text),
      findLine p off (line.1, lower line.2) (lower t) =
        ((findLine p off line t).1, lower (findLine p off line t).2) := by
    induction t with
    | nil => exact fun off line => rfl
    | cons c cs ih =>
      intro off line
      rw [lower_cons, findLine, findLine, utf8Size_toLower]
      split
      · rw [← ih]
        by_cases hc : c = '\n'
        · rw [if_pos hc, if_pos ((toLower_eq_iff (by decide) c).2 hc)]
        · rw [if_neg hc, if_neg fun h => hc ((toLower_eq_iff (by decide) c).1 h)]
      · rfl
  exact hfind t 0 (0, t)

theorem lineStart_lower (t : Text) (p : Nat) : lineStart (lower t) p = lineStart t p := by
  rw [lineStart, lineStart, lineAt_lower]

theorem splitAt?_lower (t : Text) (p : Nat) :
    splitAt? (lower t) p = (splitAt? t p).map fun cut => (lower cut.1, lower cut.2) := by
  fun_induction splitAt? t p with
  | case1 => simp [splitAt?]
  | case2 => rfl
  | case3 c cs p hc ih =>
    rw [lower_cons, splitAt?, utf8Size_toLower, if_pos hc, ih, Option.map_map, Option.map_map]
    rfl
  | case4 c cs p hc => rw [lower_cons, splitAt?, utf8Size_toLower, if_neg hc, Option.map_none]

theorem slice_lower (t : Text) (start stop : Nat) :
    slice (lower t) start stop = lower (slice t start stop) := by
  have hslice : slice? (lower t) start stop = (slice? t start stop).map lower := by
    rw [slice?, slice?, splitAt?_lower]
    split
    · cases splitAt? t start with
      | none => rfl
      | some cut =>
        rw [Option.map_some]
        dsimp only
        rw [splitAt?_lower, Option.map_map, Option.map_map]
        rfl
    · rfl
  rw [slice, slice, hslice]
  cases slice? t start stop with
  | none => rfl
  | some x => rfl

theorem takeWhile_lower (t : Text) : (lower t).takeWhile (· ≠ '\n') = lower (t.takeWhile (· ≠ '\n')) := by
  rw [lower, List.takeWhile_map, lower]
  congr 2
  funext c
  exact decide_eq_decide.2 (not_congr (toLower_eq_iff (by decide) c))

theorem lineEnd_lower (t : Text) (start : Nat) : lineEnd (lower t) start = lineEnd t start := by
  rw [lineEnd, lineEnd, size_lower, slice_lower, takeWhile_lower, size_lower]

end Text

/-- Two texts are the same up to case if their lowerings are. -/
theorem Dialect.sameLetters_iff (t t' : Text) : sameLetters t t' ↔ t.lower = t'.lower := by
  induction t generalizing t' with
  | nil => cases t' <;> simp [sameLetters]
  | cons a as ih =>
    cases t' with
    | nil => simp [sameLetters]
    | cons b bs => simp [sameLetters, ih]

/-! ## Pieces -/

/-- The piece with its letters in lower case. -/
def Piece.lower (q : Piece) : Piece := { q with text := q.text.lower }

/-- The lexeme with its letters in lower case. -/
def Lexeme.lower (l : Lexeme) : Lexeme := { l with text := l.text.lower }

theorem Lexeme.stop_lower (l : Lexeme) : l.lower.stop = l.stop := by
  rw [stop, stop, lower, Text.size_lower]

theorem Piece.totalSize_lower (ps : List Piece) : totalSize (ps.map lower) = totalSize ps := by
  induction ps with
  | nil => rfl
  | cons q ps ih => rw [List.map_cons, totalSize_cons, totalSize_cons, ih, lower, Text.size_lower]

theorem place_lower (p : Nat) (ps : List Piece) :
    place p (ps.map Piece.lower) = (place p ps).map Lexeme.lower := by
  induction ps generalizing p with
  | nil => rfl
  | cons q ps ih =>
    rw [List.map_cons, place_cons, place_cons, List.map_append, Piece.lower, Text.size_lower, ih]
    cases q.kind.lexeme? <;> rfl

theorem stringRest_lower {q : Char} (hq : ¬q.isAlpha) (t : Text) : stringRest q t.lower = stringRest q t := by
  have hbreak (c : Char) : c.toLower = '\n' ↔ c = '\n' := toLower_eq_iff (by decide) c
  have hquote (c : Char) : c.toLower = q ↔ c = q := toLower_eq_iff hq c
  fun_induction stringRest q t with
  | case1 => rfl
  | case2 | case3 | case4 | case5 | case6 | case7 => simp_all [stringRest]

namespace Dialect

variable {d : Dialect} (hm : ∀ c ∈ d.marker, ¬c.isAlpha)

theorem any_isScriptWord_lower (c? : Option Char) :
    (c?.map Char.toLower).any isScriptWord = c?.any isScriptWord := by
  cases c? with
  | none => rfl
  | some c => exact congrArg (decide <| · = CharClass.word) (of_toLower c)

include hm

/-- **A comment opens whatever the case of the text around.** -/
theorem opensComment_lower (before : Option Char) (t : Text) :
    d.opensComment (before.map Char.toLower) t.lower = d.opensComment before t := by
  have hhead : (t.lower.drop d.marker.length).head? = (t.drop d.marker.length).head?.map Char.toLower := by
    rw [Text.lower, ← List.map_drop, List.head?_map]
  rw [opensComment, opensComment, Text.isPrefixOf_lower hm, any_isScriptWord_lower, hhead,
    any_isScriptWord_lower]

theorem classHere_lower (before : Option Char) (t : Text) :
    d.classHere (before.map Char.toLower) t.lower = d.classHere before t := by
  cases t with
  | nil => rfl
  | cons c cs =>
    rw [Text.lower_cons, classHere, classHere, of_toLower, ← Text.lower_cons, opensComment_lower hm]

theorem run_lower (k : CharClass) (b : Char) (t : Text) : d.run k b.toLower t.lower = d.run k b t := by
  induction t generalizing b with
  | nil => rfl
  | cons c cs ih =>
    have hclass := classHere_lower hm (some b) (c :: cs)
    rw [Option.map_some, Text.lower_cons] at hclass
    rw [Text.lower_cons, run, run, hclass, ih]

theorem cut_lower (before : Option Char) (c : Char) (cs : Text) :
    d.cut (before.map Char.toLower) c.toLower cs.lower = d.cut before c cs := by
  have hclass := classHere_lower hm before (c :: cs)
  rw [Text.lower_cons] at hclass
  rw [cut, cut, hclass, run_lower hm, run_lower hm]
  cases hc : d.classHere before (c :: cs) with
  | newline | blank | separator | word => rfl
  | comment =>
    have htake := Text.takeWhile_lower (c :: cs)
    rw [Text.lower_cons] at htake
    dsimp only
    rw [htake, Text.lower, List.length_map]
  | quote =>
    have hq : ¬c.isAlpha := CharClass.not_isAlpha_of_quote (of_eq_of_classHere hc (by decide))
    dsimp only
    rw [(toLower_eq_iff hq c).2 rfl, stringRest_lower hq]
  | symbol =>
    have hequals (c : Char) : c.toLower = '=' ↔ c = '=' := toLower_eq_iff (by decide) c
    have hhead : cs.lower.head? = some '=' ↔ cs.head? = some '=' := by
      cases cs with
      | nil => rfl
      | cons x xs => simp [hequals]
    simp only [hequals, ne_eq, hhead]

/-- **The pieces of a lowered text are the lowered pieces.** -/
theorem pieces_lower (before : Option Char) (t : Text) :
    d.pieces (before.map Char.toLower) t.lower =
      ((d.pieces before t).1.map Piece.lower, (d.pieces before t).2.lower) := by
  fun_induction pieces d before t with
  | case1 => rw [Text.lower_nil, pieces, List.map_nil]
  | case2 before c cs n kind h =>
    rw [Text.lower_cons, pieces_cons, cut_lower hm, if_pos h]
    rfl
  | case3 before c cs n kind h front ps rest hrest ih =>
    have hfront : (c.toLower :: Text.lower cs).take n = Text.lower front := by
      rw [← Text.lower_cons, Text.lower, ← List.map_take]
      rfl
    have hbehind : (c.toLower :: Text.lower cs).drop n = Text.lower ((c :: cs).drop n) := by
      rw [← Text.lower_cons, Text.lower, ← List.map_drop]
      rfl
    have hlast : (Text.lower front).getLast? = front.getLast?.map Char.toLower := List.getLast?_map
    rw [hrest] at ih
    rw [Text.lower_cons, pieces_cons, cut_lower hm, if_neg h]
    dsimp only
    rw [hfront, hbehind, hlast, ih]
    rfl

end Dialect

/-! ## Tokens -/

/-- The name in lower case. -/
def Name.lower (n : Name) : Name := { n with text := n.text.lower }

namespace Token

/-- The token with its name in lower case. -/
def lower (x : Token) : Token := { x with name := x.name.map Name.lower }

@[simp] theorem lower_kind (x : Token) : x.lower.kind = x.kind := rfl

@[simp] theorem lower_start (x : Token) : x.lower.start = x.start := rfl

@[simp] theorem lower_stop (x : Token) : x.lower.stop = x.stop := rfl

theorem nameText_lower (x : Token) : x.lower.nameText = x.nameText.lower := by
  obtain ⟨kind, start, stop, _ | n⟩ := x
  · rfl
  · rfl

end Token

namespace Dialect

variable {d : Dialect} (hcase : d.ignoreCase)

include hcase

/-- **Names are the same or not whatever their case.** -/
theorem spells_lower (word name : Text) : d.spells word.lower name.lower = d.spells word name := by
  rw [spells, spells, if_pos hcase, if_pos hcase, Bool.eq_iff_iff, sameLetters_iff, sameLetters_iff,
    Text.lower_lower, Text.lower_lower]

theorem isKeyword_lower (word : Text) (k : Keyword) : d.isKeyword word.lower k = d.isKeyword word k := by
  rw [isKeyword, isKeyword, spells, spells, if_pos hcase, if_pos hcase, Bool.eq_iff_iff, sameLetters_iff,
    sameLetters_iff, Text.lower_lower]

/-- **The tokens of lowered lexemes are the lowered tokens.** -/
theorem tokensOf_lower (ls : List Lexeme) :
    d.tokensOf (ls.map Lexeme.lower) = (d.tokensOf ls).map Token.lower := by
  have htoken (l : Lexeme) (k : TokenKind) : id (l.lower.token k) = (l.token k).lower := by
    rw [id, Lexeme.token, Lexeme.stop_lower]
    rfl
  have hnamed (l : Lexeme) (k : TokenKind) (n : Lexeme) :
      id (l.lower.tokenNamed k n.lower) = (l.tokenNamed k n).lower := by
    rw [id, Lexeme.tokenNamed, Lexeme.stop_lower]
    rfl
  have hspells (l : Lexeme) (k : Keyword) : d.isKeyword l.lower.text k = d.isKeyword l.text k :=
    isKeyword_lower hcase l.text k
  have hread := read_map (f := Lexeme.lower) (fun l => rfl) hspells htoken hnamed .outside ls
  rwa [List.map_id] at hread

variable (hm : ∀ c ∈ d.marker, ¬c.isAlpha)

include hm

theorem tokenizeFrom_lower (p : Nat) (t : Text) :
    d.tokenizeFrom p t.lower = (d.tokenizeFrom p t).map Token.lower := by
  fun_induction tokenizeFrom d p t with
  | case1 => rw [Text.lower_nil, tokenizeFrom_nil, List.map_nil]
  | case2 p c cs line ih =>
    have hpieces := pieces_lower hm none (c :: cs)
    rw [Option.map_none] at hpieces
    rw [Text.lower_cons, tokenizeFrom, ← Text.lower_cons, hpieces]
    dsimp only
    rw [place_lower, tokensOf_lower hcase, Piece.totalSize_lower, ih, List.map_append]

/-- **The tokens of a lowered text are the lowered tokens.** -/
theorem tokenize_lower (t : Text) : d.tokenize t.lower = (d.tokenize t).map Token.lower :=
  tokenizeFrom_lower hcase hm 0 t

end Dialect

end BlockScript
