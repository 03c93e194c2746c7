/-
  What the tokens of a line depend on.

  Three things do not matter.  What follows the line: its pieces are cut without a look at the line break
  or behind it, unless the comment marker holds one (`pieces_break`), and a break at the end of the text
  only adds a separator (`tokenizeFrom_snoc_break`).  Blanks at its front: each is a piece of its own, and
  after it the line is cut as at its start (`pieces_blank`).  Where it stands: reading looks at the kinds
  and texts of lexemes, so up to their offsets the tokens are the same everywhere (`map_bare_tokensOf`).

  `skeleton` is what is left: the tokens of a line without their offsets.
-/
import BlockScript.Proofs.LineLookup
import BlockScript.Text.Blank

namespace BlockScript

/-! ## Blanks -/

namespace CharSet

/-- The code points between the flips of a set, taken in pairs. -/
def points : List Nat → List Nat
  | a :: b :: bounds => List.range' a (b - a) ++ points bounds
  | _ => []

/-- A set that ends outside holds the code points between its flips only. -/
theorem mem_points {n : Nat} {bounds : List Nat} (h : side n bounds false)
    (heven : bounds.length % 2 = 0) : n ∈ points bounds := by
  fun_induction points bounds with
  | case1 a b bounds ih =>
    rw [side] at h
    split at h
    · cases h
    · rw [Bool.not_false, side] at h
      split at h
      · exact List.mem_append_left _ (List.mem_range'_1.2 (by omega))
      · refine List.mem_append_right _ (ih h ?_)
        simp only [List.length_cons] at heven
        omega
  | case2 bounds hbounds =>
    match bounds, hbounds with
    | [], _ => cases h
    | [_], _ => simp at heven
    | a :: b :: bounds, hbounds => exact absurd rfl (hbounds a b bounds)

end CharSet

theorem CharClass.of_points : ∀ n ∈ CharSet.points whiteSpace.bounds,
    of (Char.ofNat n) = if n = 10 then .newline else .blank := by
  decide +kernel

/-- Blanks have the class of blanks, the line break apart. -/
theorem CharClass.of_isBlank {c : Char} (h : isBlank c) (hc : c ≠ '\n') : of c = .blank := by
  have hpoint := of_points c.toNat (CharSet.mem_points h rfl)
  have hbreak : c.toNat ≠ 10 := fun h10 => hc (by rw [← Char.ofNat_toNat c, h10])
  rwa [Char.ofNat_toNat, if_neg hbreak] at hpoint

/-! ## The line break -/

namespace Dialect

variable {d : Dialect}

/-- A text without line breaks at the front of a line stands before its break. -/
theorem prefix_of_prefix_break {m x rest : Text} (hm : '\n' ∉ m) (h : m <+: x ++ '\n' :: rest) : m <+: x := by
  by_cases hlen : m.length ≤ x.length
  · exact List.prefix_of_prefix_length_le h (List.prefix_append ..) hlen
  · have hx : x ++ ['\n'] <+: x ++ '\n' :: rest := ⟨rest, by simp⟩
    obtain ⟨y, rfl⟩ : x ++ ['\n'] <+: m := List.prefix_of_prefix_length_le hx h (by simp; omega)
    exact absurd (by simp) hm

/-- A comment opens before a line break as it does before the end of the text. -/
theorem opensComment_break (hm : '\n' ∉ d.marker) (before : Option Char) (x rest : Text) :
    d.opensComment before (x ++ '\n' :: rest) = d.opensComment before x := by
  by_cases h : d.marker <+: x
  · have h' : d.marker <+: x ++ '\n' :: rest := h.trans (List.prefix_append ..)
    have hhead : ((x ++ '\n' :: rest).drop d.marker.length).head?.any isScriptWord =
        (x.drop d.marker.length).head?.any isScriptWord := by
      rw [List.drop_append_of_le_length h.length_le]
      cases x.drop d.marker.length with
      | nil => rfl
      | cons c cs => rfl
    rw [opensComment, opensComment, hhead, List.isPrefixOf_iff_prefix.2 h, List.isPrefixOf_iff_prefix.2 h']
  · have h' : ¬d.marker <+: x ++ '\n' :: rest := fun h' => h (prefix_of_prefix_break hm h')
    rw [opensComment, opensComment, Bool.eq_false_iff.2 (mt List.isPrefixOf_iff_prefix.1 h),
      Bool.eq_false_iff.2 (mt List.isPrefixOf_iff_prefix.1 h')]
    simp only [Bool.and_false, Bool.false_and]

theorem classHere_break (hm : '\n' ∉ d.marker) (before : Option Char) (x rest : Text) :
    d.classHere before (x ++ '\n' :: rest) = d.classHere before x := by
  have hopens := opensComment_break hm before x rest
  cases x with
  | nil =>
    have hnone : d.opensComment before [] = false := by
      cases h : d.marker <;> simp [opensComment, h]
    rw [List.nil_append] at hopens ⊢
    show (if d.opensComment before ('\n' :: rest) then CharClass.comment else CharClass.of '\n') = .newline
    rw [hopens, hnone, if_neg Bool.false_ne_true, CharClass.of_newline]
  | cons c cs =>
    rw [List.cons_append] at hopens ⊢
    rw [classHere, classHere, hopens]

theorem run_break (hm : '\n' ∉ d.marker) {k : CharClass} (hk : k ≠ .newline) (before : Char) (x rest : Text) :
    d.run k before (x ++ '\n' :: rest) = d.run k before x := by
  induction x generalizing before with
  | nil =>
    have hclass := classHere_break hm (some before) [] rest
    rw [List.nil_append] at hclass ⊢
    show (if d.classHere (some before) ('\n' :: rest) = k then _ else 0) = 0
    rw [hclass, if_neg fun h => hk h.symm]
  | cons c cs ih =>
    have hclass := classHere_break hm (some before) (c :: cs) rest
    rw [List.cons_append] at hclass ⊢
    rw [run, run, hclass, ih]

theorem stringRest_break (q : Char) (x rest : Text) :
    stringRest q (x ++ '\n' :: rest) = stringRest q x := by
  fun_induction stringRest q x with
  | case1 => cases rest <;> simp [stringRest]
  | case2 => simp [stringRest]
  | case3 c hc =>
    have hnil : stringRest q ('\n' :: rest) = 0 := by cases rest <;> simp [stringRest]
    by_cases hq : c = q
    · subst hq
      simp [stringRest, hc, Ne.symm hc]
    · simp [stringRest, hc, hq, hnil]
  | case4 => simp [stringRest]
  | case5 cs hc ih => simp [stringRest, hc, ih]
  | case6 c' cs hc hne => simp [stringRest, hc, hne]
  | case7 c c' cs hc hne ih => simpa [stringRest, hc, hne] using ih

theorem takeWhile_break (x rest : Text) :
    (x ++ '\n' :: rest).takeWhile (· ≠ '\n') = x.takeWhile (· ≠ '\n') := by
  induction x with
  | nil => rfl
  | cons c cs ih =>
    by_cases hc : c = '\n'
    · simp [hc]
    · simpa [hc] using ih

/-- What stands at the front of a line is the same with and without its break. -/
theorem cut_break (hm : '\n' ∉ d.marker) (before : Option Char) (c : Char) (cs rest : Text) :
    d.cut before c (cs ++ '\n' :: rest) = d.cut before c cs := by
  have hclass := classHere_break hm before (c :: cs) rest
  rw [List.cons_append] at hclass
  unfold cut
  rw [hclass]
  cases d.classHere before (c :: cs) with
  | newline | blank | separator => rfl
  | comment => simp only [← List.cons_append, takeWhile_break]
  | quote => simp only [stringRest_break]
  | word => simp only [run_break hm (k := .word) (by simp)]
  | symbol =>
    have hhead : (cs ++ '\n' :: rest).head? ≠ some '=' ↔ cs.head? ≠ some '=' := by
      cases cs with
      | nil => simp
      | cons c' cs => rfl
    simp only [run_break hm (k := .symbol) (by simp), hhead]

theorem pieces_cons (d : Dialect) (before : Option Char) (c : Char) (cs : Text) :
    d.pieces before (c :: cs) =
      if (d.cut before c cs).1 = .newline ∨ (d.cut before c cs).2 = 0 then
        ([⟨(d.cut before c cs).1, [c]⟩], cs)
      else
        let front := (c :: cs).take (d.cut before c cs).2
        let r := d.pieces front.getLast? ((c :: cs).drop (d.cut before c cs).2)
        (⟨(d.cut before c cs).1, front⟩ :: r.1, r.2) := by
  rw [pieces]
  rfl

/-- **The pieces of a line with a break are those of the line without it, and the break.**  Nothing
    behind the break matters. -/
theorem pieces_break (hm : '\n' ∉ d.marker) (before : Option Char) {w : Text} (hw : ∀ c ∈ w, c ≠ '\n')
    (rest : Text) :
    d.pieces before (w ++ '\n' :: rest) = ((d.pieces before w).1 ++ [⟨.newline, ['\n']⟩], rest) := by
  fun_induction pieces d before w with
  | case1 before =>
    have hclass := classHere_break hm before [] rest
    have hcut : d.cut before '\n' rest = (.newline, 1) := by
      rw [cut, show d.classHere before ('\n' :: rest) = .newline from hclass]
    rw [List.nil_append, pieces_cons, hcut, if_pos (Or.inl rfl)]
    rfl
  | case2 before c cs n kind h => exact absurd (d.cut_stops before c cs h) (hw c (List.mem_cons_self ..))
  | case3 before c cs n kind h front ps after heq ih =>
    have hcut := cut_break hm before c cs rest
    -- the piece does not reach over the break
    have hn : n ≤ (c :: cs).length := by
      refine Nat.le_of_not_lt fun hlen => ?_
      have hbreak := d.cut_noBreak before c (cs ++ '\n' :: rest) (by rw [hcut]; exact fun hk => h (Or.inl hk))
      rw [hcut, ← List.cons_append, List.take_append, List.take_of_length_le (Nat.le_of_lt hlen)] at hbreak
      obtain ⟨m, hm⟩ : ∃ m, n - (c :: cs).length = m + 1 := ⟨n - (c :: cs).length - 1, by omega⟩
      refine hbreak '\n' (List.mem_append_right _ ?_) rfl
      rw [show (d.cut before c cs).2 - (c :: cs).length = m + 1 from hm, List.take_succ_cons]
      exact List.mem_cons_self ..
    have htake : (c :: (cs ++ '\n' :: rest)).take n = front := by
      rw [← List.cons_append, List.take_append_of_le_length hn]
    have hafter : (c :: (cs ++ '\n' :: rest)).drop n = (c :: cs).drop n ++ '\n' :: rest := by
      rw [← List.cons_append, List.drop_append_of_le_length hn]
    have hdrop : ∀ x ∈ (c :: cs).drop n, x ≠ '\n' := fun x hx => hw x (List.mem_of_mem_drop hx)
    rw [heq] at ih
    rw [List.cons_append, pieces_cons, hcut, if_neg h]
    dsimp only
    rw [htake, hafter, ih hdrop]
    rfl

/-! ## Blanks at the front -/

/-- What stands before a text matters only in so far as it is a word character. -/
theorem classHere_congr_before {before before' : Option Char}
    (h : before.any isScriptWord = before'.any isScriptWord) (t : Text) :
    d.classHere before t = d.classHere before' t := by
  cases t with
  | nil => rfl
  | cons c cs => rw [classHere, classHere, opensComment, opensComment, h]

theorem pieces_congr_before {before before' : Option Char}
    (h : before.any isScriptWord = before'.any isScriptWord) (t : Text) :
    d.pieces before t = d.pieces before' t := by
  cases t with
  | nil => rw [pieces, pieces]
  | cons c cs =>
    have hcut : d.cut before c cs = d.cut before' c cs := by
      rw [cut, cut, classHere_congr_before h]
    rw [pieces_cons, pieces_cons, hcut]

/-- What stands before a line is no word character. -/
theorem any_isScriptWord_of_endsLine {before : Text} (h : before.EndsLine) :
    before.getLast?.any isScriptWord = (none : Option Char).any isScriptWord := by
  rcases h with rfl | hlast
  · rfl
  · rw [hlast]
    decide

/-- A blank is a piece of its own, and after it a line is cut as at its start. -/
theorem pieces_blank (hm : ∀ c ∈ d.marker, ¬isBlank c) {before : Option Char} {c : Char}
    (hb : isBlank c) (hc : c ≠ '\n') (cs : Text) :
    d.pieces before (c :: cs) = (⟨.blank, [c]⟩ :: (d.pieces none cs).1, (d.pieces none cs).2) := by
  have hof := CharClass.of_isBlank hb hc
  have hopens : d.opensComment before (c :: cs) = false := by
    cases hmarker : d.marker with
    | nil => simp [opensComment, hmarker]
    | cons m ms =>
      have hne : m ≠ c := by
        rintro rfl
        exact hm m (by simp [hmarker]) hb
      simp [opensComment, hmarker, hne]
  have hcut : d.cut before c cs = (.blank, 1) := by
    rw [cut, classHere, hopens, if_neg (by simp), hof]
  have hbefore : (some c).any isScriptWord = (none : Option Char).any isScriptWord := by
    simp [isScriptWord, hof]
  rw [pieces_cons, hcut, if_neg (by simp), ← pieces_congr_before hbefore]
  rfl

end Dialect

/-! ## Lexemes with their offsets -/

theorem Piece.totalSize_cons (q : Piece) (qs : List Piece) :
    totalSize (q :: qs) = q.text.size + totalSize qs := by
  rw [totalSize, List.flatMap_cons, Text.size_append, totalSize]

theorem place_cons (p : Nat) (q : Piece) (ps : List Piece) :
    place p (q :: ps) = (q.kind.lexeme?.map (⟨·, p, q.text⟩)).toList ++ place (p + q.text.size) ps := by
  rw [place]
  cases q.kind.lexeme? <;> rfl

theorem place_append (p : Nat) (ps qs : List Piece) :
    place p (ps ++ qs) = place p ps ++ place (p + Piece.totalSize ps) qs := by
  induction ps generalizing p with
  | nil => rfl
  | cons q ps ih =>
    rw [List.cons_append, place_cons, place_cons, ih, List.append_assoc, Piece.totalSize_cons, Nat.add_assoc]

namespace Dialect

variable {d : Dialect} {l : Lexeme}

theorem ifKind_snoc_break (hl : l.kind = .newline) (ls : List Lexeme) :
    d.ifKind (ls ++ [l]) = d.ifKind ls := by
  have hthen : d.lexemeIs .thenWord l = false := by simp [lexemeIs, hl]
  have hends : l.endsStatement := by simp [Lexeme.endsStatement, hl]
  induction ls with
  | nil => simp [ifKind, hthen]
  | cons x ls ih =>
    by_cases hx : d.lexemeIs .thenWord x
    · rw [ifKind, ifKind, List.cons_append, List.dropWhile_cons_of_neg (by simp [hx]),
        List.dropWhile_cons_of_neg (by simp [hx])]
      cases ls with
      | nil => simp [hends]
      | cons y ls => rfl
    · rw [ifKind, ifKind] at ih ⊢
      rw [List.cons_append, List.dropWhile_cons_of_pos (by simp [hx]),
        List.dropWhile_cons_of_pos (by simp [hx]), ih]

theorem wordKind_snoc_break (hl : l.kind = .newline) (header : Header) (k : Option Keyword)
    (ls : List Lexeme) : d.wordKind header k (ls ++ [l]) = d.wordKind header k ls := by
  have hplain : plainKind (ls ++ [l]) = plainKind ls := by
    cases ls with
    | nil => simp [plainKind, hl]
    | cons x ls => rfl
  have helse : (ls ++ [l]).head?.any (d.lexemeIs .ifWord) = ls.head?.any (d.lexemeIs .ifWord) := by
    cases ls with
    | nil => simp [lexemeIs, hl]
    | cons x ls => rfl
  unfold wordKind
  rw [hplain, helse, ifKind_snoc_break hl]

/-- A line break at the end of a line adds a separator to its tokens and changes none. -/
theorem read_snoc_break (hl : l.kind = .newline) (header : Header) (ls : List Lexeme) :
    d.read header (ls ++ [l]) = d.read header ls ++ [l.token .separator] := by
  have hbreak : ∀ header, d.read header [l] = [l.token .separator] := by
    intro header
    rw [read.eq_def]
    simp only [hl]
    rfl
  fun_induction read d header ls with
  | case1 header => exact hbreak header
  | case2 header x ls hk ih | case3 header x ls hk ih | case4 header x ls hk ih
  | case5 header x ls hk ih =>
    rw [List.cons_append, read.eq_def]
    simp [hk, ih]
  | case6 x ls hk ih =>
    rw [List.cons_append, read.eq_def]
    simp [hk, ih]
  | case7 header x ls hk hne ih =>
    rw [List.cons_append, read.eq_def]
    simp [hk, hne, ih]
  | case8 header x hk plain named hfold =>
    rw [List.cons_append, read.eq_def]
    simp [hk, hfold, hl, hbreak]
  | case9 header x hk plain named n ls hfold hn ih =>
    rw [List.cons_append, read.eq_def]
    simp [hk, hfold, hn, ih]
  | case10 header x hk plain named n ls hfold hn ih =>
    rw [List.cons_append] at ih
    rw [List.cons_append, read.eq_def]
    simp [hk, hfold, hn, ih]
  | case11 header x hk ls hfold kind header' hword ih =>
    have hword' : d.wordKind header (d.keyword? x.text) (ls ++ [l]) = (kind, header') := by
      rw [wordKind_snoc_break hl, hword]
    simp [read, hk, hfold, hword', ih]

end Dialect

/-! ## Without offsets -/

namespace Lexeme

/-- The lexeme without its offset. -/
def bare (l : Lexeme) : Lexeme := { l with start := 0 }

@[simp] theorem bare_kind (l : Lexeme) : l.bare.kind = l.kind := rfl

@[simp] theorem bare_text (l : Lexeme) : l.bare.text = l.text := rfl

end Lexeme

namespace Token

/-- The token without its offsets. -/
def bare (t : Token) : Token := ⟨t.kind, 0, 0, t.name.map fun n => ⟨0, n.text⟩⟩

end Token

/-- The lexemes among the pieces, without their offsets. -/
def bareLexemes (ps : List Piece) : List Lexeme :=
  ps.filterMap fun q => q.kind.lexeme?.map (⟨·, 0, q.text⟩)

theorem map_bare_place (p : Nat) (ps : List Piece) : (place p ps).map Lexeme.bare = bareLexemes ps := by
  induction ps generalizing p with
  | nil => rfl
  | cons q ps ih =>
    rw [place, bareLexemes, List.filterMap_cons]
    cases hk : q.kind.lexeme? with
    | none => simpa [hk, bareLexemes] using ih _
    | some k => simpa [hk, bareLexemes, Lexeme.bare] using ih _

namespace Dialect

variable {d : Dialect}

theorem ifKind_map {f : Lexeme → Lexeme} (hkind : ∀ l, (f l).kind = l.kind)
    (hspells : ∀ l k, d.isKeyword (f l).text k = d.isKeyword l.text k) (rest : List Lexeme) :
    d.ifKind (rest.map f) = d.ifKind rest := by
  have hthen : (fun l => !d.lexemeIs .thenWord l) ∘ f = fun l => !d.lexemeIs .thenWord l := by
    funext l
    simp only [Function.comp, lexemeIs, hkind, hspells]
  have hdrop : (rest.map f).dropWhile (!d.lexemeIs .thenWord ·) =
      (rest.dropWhile (!d.lexemeIs .thenWord ·)).map f := by
    rw [List.dropWhile_map, hthen]
  rw [ifKind, ifKind, hdrop]
  rcases rest.dropWhile (!d.lexemeIs .thenWord ·) with _ | ⟨l, _ | ⟨l', ls⟩⟩
  · rfl
  · rfl
  · have hends : (f l').endsStatement = l'.endsStatement := by simp only [Lexeme.endsStatement, hkind]
    simp only [List.map_cons, hends]

theorem wordKind_map {f : Lexeme → Lexeme} (hkind : ∀ l, (f l).kind = l.kind)
    (hspells : ∀ l k, d.isKeyword (f l).text k = d.isKeyword l.text k) (header : Header) (k : Option Keyword)
    (rest : List Lexeme) :
    d.wordKind header k (rest.map f) = d.wordKind header k rest := by
  have hplain : plainKind (rest.map f) = plainKind rest := by
    cases rest with
    | nil => rfl
    | cons l ls => simp [plainKind, hkind]
  have helse : (rest.map f).head?.any (d.lexemeIs .ifWord) = rest.head?.any (d.lexemeIs .ifWord) := by
    cases rest with
    | nil => rfl
    | cons l ls => simp [lexemeIs, hkind, hspells]
  unfold wordKind
  rw [hplain, helse, ifKind_map hkind hspells]

/-- Reading looks at kinds and at the keywords spelled only.  So where the lexemes keep both, and the tokens
    of a changed lexeme answer to those of the lexeme, all tokens do. -/
theorem read_map {f : Lexeme → Lexeme} {g g' : Token → Token} (hkind : ∀ l, (f l).kind = l.kind)
    (hspells : ∀ l k, d.isKeyword (f l).text k = d.isKeyword l.text k)
    (htoken : ∀ l k, g ((f l).token k) = g' (l.token k))
    (hnamed : ∀ l k n, g ((f l).tokenNamed k (f n)) = g' (l.tokenNamed k n)) (header : Header)
    (ls : List Lexeme) : (d.read header (ls.map f)).map g = (d.read header ls).map g' := by
  have hkeyword (l : Lexeme) : d.keyword? (f l).text = d.keyword? l.text :=
    congrArg (Keyword.all.find? ·) (funext (hspells l))
  fun_induction read d header ls with
  | case1 => rfl
  | case2 header l ls hk ih | case3 header l ls hk ih | case4 header l ls hk ih
  | case5 header l ls hk ih =>
    rw [List.map_cons, read.eq_def]
    simp [hkind, hk, htoken, ih]
  | case6 l ls hk ih =>
    rw [List.map_cons, read.eq_def]
    simp [hkind, hk, htoken, ih]
  | case7 header l ls hk hne ih =>
    rw [List.map_cons, read.eq_def]
    simp [hkind, hk, hne, htoken, ih]
  | case8 header l hk plain named hfold =>
    rw [List.map_cons, read.eq_def]
    simp [hkind, hkeyword, hk, hfold, htoken]
  | case9 header l hk plain named n ls hfold hn ih =>
    rw [List.map_cons, read.eq_def]
    simp [hkind, hkeyword, hk, hfold, hn, hnamed, ih]
  | case10 header l hk plain named n ls hfold hn ih =>
    rw [List.map_cons] at ih
    rw [List.map_cons, read.eq_def]
    simp [hkind, hkeyword, hk, hfold, hn, htoken, ih]
  | case11 header l hk ls hfold kind header' hword ih =>
    have hword' : d.wordKind header (d.keyword? l.text) (ls.map f) = (kind, header') := by
      rw [wordKind_map hkind hspells, hword]
    simp [read, hkind, hkeyword, hk, hfold, hword', htoken, ih]

/-- The tokens of a line without their offsets. -/
def skeleton (d : Dialect) (line : Text) : List Token :=
  (d.tokensOf (bareLexemes (d.pieces none line).1)).map Token.bare

/-- **Up to their offsets the tokens of a line are the same everywhere.** -/
theorem map_bare_tokensOf (p : Nat) (line : Text) :
    (d.tokensOf (place p (d.pieces none line).1)).map Token.bare = d.skeleton line := by
  rw [skeleton, tokensOf, tokensOf, ← map_bare_place p]
  symm
  refine read_map Lexeme.bare_kind (fun l k => rfl) ?_ ?_ .outside _
  · exact fun l k => rfl
  · exact fun l k n => rfl

/-- Blanks at the front of a line do not show in its skeleton. -/
theorem skeleton_append (hm : ∀ c ∈ d.marker, ¬isBlank c) {lead : Text}
    (hlead : ∀ c ∈ lead, isBlank c ∧ c ≠ '\n') (line : Text) :
    d.skeleton (lead ++ line) = d.skeleton line := by
  induction lead with
  | nil => rfl
  | cons c lead ih =>
    obtain ⟨hb, hc⟩ := hlead c (List.mem_cons_self ..)
    rw [← ih fun x hx => hlead x (List.mem_cons_of_mem _ hx), skeleton, skeleton, List.cons_append,
      pieces_blank hm hb hc]
    rfl

/-! ## Line by line -/

@[simp] theorem tokenizeFrom_nil (d : Dialect) (p : Nat) : d.tokenizeFrom p [] = [] := by
  rw [tokenizeFrom]

/-- The tokens of a text: those of its first line as if it stood alone, and those after it. -/
theorem tokenizeFrom_line (hm : '\n' ∉ d.marker) {line rest : Text} (h : Text.IsLine line rest)
    (hne : line ≠ []) (p : Nat) :
    d.tokenizeFrom p (line ++ rest) =
      d.tokensOf (place p (d.pieces none line).1) ++ d.tokenizeFrom (p + line.size) rest := by
  obtain ⟨c, cs, hc⟩ : ∃ c cs, line ++ rest = c :: cs := List.exists_cons_of_ne_nil (by simp [hne])
  have htext := d.pieces_text none (line ++ rest)
  rw [h.firstLine] at htext
  have hpieces : (d.pieces none (line ++ rest)).1 = (d.pieces none line).1 := by
    rcases h with ⟨w, hw, rfl⟩ | ⟨-, rfl⟩
    · rw [List.append_assoc, List.singleton_append, pieces_break hm none hw, pieces_break hm none hw]
    · rw [List.append_nil]
  have hafter : (d.pieces none (line ++ rest)).2 = rest := by
    have hall := d.pieces_append none (line ++ rest)
    rw [htext] at hall
    exact List.append_cancel_left hall
  have hsize : Piece.totalSize (d.pieces none (line ++ rest)).1 = line.size := by
    rw [Piece.totalSize, htext]
  rw [hc, tokenizeFrom, ← hc, hsize, hafter, hpieces]

/-- Past a place where a line starts the tokens are those of the text from there on. -/
theorem tokenizeFrom_append_lines (hm : '\n' ∉ d.marker) {before : Text} (h : before.EndsLine) (p : Nat)
    (rest : Text) :
    d.tokenizeFrom p (before ++ rest) = d.tokenizeFrom p before ++ d.tokenizeFrom (p + before.size) rest := by
  induction before using Text.line_induction generalizing p with
  | nil => simp
  | line line later hne hline hlines ih =>
    have hbreak := hline.of_endsLine hne h (later ++ rest)
    rw [List.append_assoc, tokenizeFrom_line hm hbreak hne, tokenizeFrom_line hm hline hne, ih h.right,
      List.append_assoc, Text.size_append, Nat.add_assoc]

theorem tokensOf_snoc_break (hm : '\n' ∉ d.marker) {w : Text} (hw : ∀ c ∈ w, c ≠ '\n') (p : Nat) :
    d.tokensOf (place p (d.pieces none (w ++ ['\n'])).1) =
      d.tokensOf (place p (d.pieces none w).1) ++ [⟨.separator, p + w.size, p + w.size + 1, none⟩] := by
  have hline : Text.IsLine w [] := .inr ⟨hw, rfl⟩
  have hsize : Piece.totalSize (d.pieces none w).1 = w.size := by
    rw [Piece.totalSize, d.pieces_text, hline.firstLine_eq]
  have hplace : place p (d.pieces none (w ++ ['\n'])).1 =
      place p (d.pieces none w).1 ++ [⟨.newline, p + w.size, ['\n']⟩] := by
    rw [pieces_break hm none hw, place_append, hsize]
    rfl
  rw [hplace, tokensOf, read_snoc_break rfl]
  rfl

/-- **A line break at the end of a text adds a separator to its tokens.** -/
theorem tokenizeFrom_snoc_break (hm : '\n' ∉ d.marker) (t : Text) (p : Nat) :
    d.tokenizeFrom p (t ++ ['\n']) =
      d.tokenizeFrom p t ++ [⟨.separator, p + t.size, p + t.size + 1, none⟩] := by
  induction t using Text.line_induction generalizing p with
  | nil =>
    have hbreak : Text.IsLine ['\n'] [] := .inl ⟨[], by simp, rfl⟩
    have hline := tokenizeFrom_line hm hbreak (by simp) p
    rw [tokenizeFrom_nil, List.append_nil, List.append_nil] at hline
    have hsep := tokensOf_snoc_break hm (w := []) (by simp) p
    rw [List.nil_append, show (d.pieces none []).1 = [] by rw [pieces]] at hsep
    rw [List.nil_append, hline, tokenizeFrom_nil, hsep]
    rfl
  | line line rest hne hline hlines ih =>
    rcases hline with ⟨w, hw, rfl⟩ | ⟨hw, rfl⟩
    · -- the break is added to a later line
      have hline : ∀ rest', Text.IsLine (w ++ ['\n']) rest' := fun _ => .inl ⟨w, hw, rfl⟩
      rw [List.append_assoc, tokenizeFrom_line hm (hline _) hne, tokenizeFrom_line hm (hline _) hne,
        ih, Text.size_append (w ++ ['\n']) rest, ← Nat.add_assoc, List.append_assoc]
    · have hline : Text.IsLine line [] := .inr ⟨hw, rfl⟩
      have hbroken : Text.IsLine (line ++ ['\n']) [] := .inl ⟨line, hw, rfl⟩
      have hafter := tokenizeFrom_line hm hline hne p
      have hbefore := tokenizeFrom_line hm hbroken (by simp) p
      simp only [List.append_nil, tokenizeFrom_nil] at hafter hbefore ⊢
      rw [hbefore, hafter, tokensOf_snoc_break hm hw]

/-- Up to their offsets the tokens of a text are the skeletons of its lines. -/
theorem map_bare_tokenizeFrom (hm : '\n' ∉ d.marker) (p : Nat) (t : Text) :
    (d.tokenizeFrom p t).map Token.bare = (t.lines.map d.skeleton).flatten := by
  induction t using Text.line_induction generalizing p with
  | nil =>
    rw [tokenizeFrom_nil]
    rfl
  | line line rest hne hline hlines ih =>
    rw [tokenizeFrom_line hm hline hne, List.map_append, map_bare_tokensOf, hlines, ih, List.map_cons,
      List.flatten_cons]

end Dialect

end BlockScript
