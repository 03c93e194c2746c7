/-
  A line in which the name of a `begin` or `end` changes.

  1. **Pieces** (`pieces_split`): where `#` opens comments, what is cut off the front of a text depends on
     the characters it takes and on the one behind them.  So the pieces before a word stay when the text
     behind the first character of that word changes.
  2. **Lexemes** (`place_word`, `exists_name`): a word is a lexeme, and between a keyword and its name stand
     blanks only.
  3. **Tokens** (`exists_readsTo`): the reader goes from left to right, and all it looks at ahead of the
     lexeme it has in hand is the next one, except at an `if`, which looks for its `then` on the whole line.
     So the tokens before a lexeme stay when the lexemes behind it change, up to the kinds of such `if`s as
     have no `then` before it.

  `Renaming` puts the three together.
-/
import BlockScript.Nesting.Names
import BlockScript.Proofs.ClosingLine
import BlockScript.Proofs.LineLocality

namespace BlockScript

namespace Text.IsWord

variable {w : Text}

theorem head?_append (h : w.IsWord) (z : Text) : (w ++ z).head? = w.head? := by
  obtain ⟨hne, -⟩ := h
  cases w with
  | nil => exact absurd rfl hne
  | cons c cs => rfl

theorem noBreak (h : w.IsWord) : ∀ c ∈ w, c ≠ '\n' := by
  rintro c hc rfl
  exact absurd (h.2 _ hc) (by decide)

end Text.IsWord

/-! ## Pieces before a word -/

/-- A string is empty behind its opening quote where the line ends. -/
theorem stringRest_eq_zero_iff (q : Char) (t : Text) :
    stringRest q t = 0 ↔ t.head?.all (· = '\n') := by
  match t with
  | [] => simp [stringRest]
  | [c] => simp [stringRest]
  | c :: c' :: cs =>
    rw [stringRest]
    split
    · simp_all
    · split
      · split <;> simp_all
      · simp_all

/-- The length of a string depends on the string and on the character behind it. -/
theorem stringRest_congr {q : Char} {y y' : Text} (hy : y'.head? = y.head?) :
    ∀ {cs : Text}, stringRest q (cs ++ y) = cs.length → stringRest q (cs ++ y') = cs.length
  | [], h => by
    rw [List.nil_append, List.length_nil, stringRest_eq_zero_iff] at h ⊢
    rwa [hy]
  | [c], h => by
    match y, y', hy with
    | [], [], _ => exact h
    | c' :: ys, c'' :: ys', hy =>
      obtain rfl : c'' = c' := by simpa using hy
      have hzero : stringRest q (c'' :: ys) = 0 ↔ stringRest q (c'' :: ys') = 0 := by
        rw [stringRest_eq_zero_iff, stringRest_eq_zero_iff]
        rfl
      simp only [List.cons_append, List.nil_append, stringRest, List.length_singleton] at h ⊢
      grind
  | c :: c' :: cs, h => by
    simp only [List.cons_append, stringRest, List.length_cons] at h ⊢
    split at h
    · omega
    · next hc =>
      rw [if_neg hc]
      split at h
      · next hq =>
        rw [if_pos hq]
        split at h
        · next hq' =>
          rw [if_pos hq', stringRest_congr hy (by omega)]
        · omega
      · next hq =>
        have hrest : stringRest q ((c' :: cs) ++ y) = (c' :: cs).length := by
          rw [List.cons_append, List.length_cons]
          omega
        have hih := stringRest_congr hy hrest
        rw [List.cons_append] at hih
        rw [if_neg hq, hih, List.length_cons]

/-- Whether all of a text is taken depends on the text and on the character behind it. -/
theorem takeWhile_congr {p : Char → Bool} {cs y y' : Text} (hy : y'.head? = y.head?)
    (h : ((cs ++ y).takeWhile p).length = cs.length) : ((cs ++ y').takeWhile p).length = cs.length := by
  induction cs with
  | nil =>
    match y, y', hy with
    | [], [], _ => rfl
    | c :: ys, c' :: ys', hy =>
      obtain rfl : c' = c := by simpa using hy
      cases hc : p c' <;> simp [hc] at h ⊢
  | cons c cs ih =>
    cases hc : p c <;> simp [hc] at h ⊢
    exact ih h

namespace Dialect

variable {d : Dialect} {t y y' z v w : Text} {p : Nat}

/-- Where `#` opens comments the class of a character depends on nothing around it. -/
theorem classHere_congr (hd : d.marker = ['#']) (before before' : Option Char) (c : Char) (cs cs' : Text) :
    d.classHere before (c :: cs) = d.classHere before' (c :: cs') := by
  have hword : isScriptWord '#' = false := by decide
  rw [classHere, classHere, opensComment, opensComment, hasWordMarker, hd]
  simp [hword]

/-- The pieces of a text do not depend on what stands before it. -/
theorem pieces_before (hd : d.marker = ['#']) (before : Option Char) (t : Text) :
    d.pieces before t = d.pieces none t := by
  cases t with
  | nil => rw [pieces, pieces]
  | cons c cs =>
    have hcut : d.cut before c cs = d.cut none c cs := by
      rw [cut, cut, classHere_congr hd before none c cs cs]
    rw [pieces_cons, pieces_cons, hcut]

theorem run_congr (hd : d.marker = ['#']) {k : CharClass} {before : Char} {cs : Text}
    (hy : y'.head? = y.head?) (h : d.run k before (cs ++ y) = cs.length) :
    d.run k before (cs ++ y') = cs.length := by
  induction cs generalizing before with
  | nil =>
    match y, y', hy with
    | [], [], _ => rfl
    | c :: ys, c' :: ys', hy =>
      obtain rfl : c' = c := by simpa using hy
      rw [List.nil_append, run] at h ⊢
      rw [classHere_congr hd (some before) (some before) c' ys' ys]
      split at h
      · cases h
      · next hc => rw [if_neg hc, List.length_nil]
  | cons c cs ih =>
    rw [List.cons_append, run, List.length_cons] at h ⊢
    rw [classHere_congr hd (some before) (some before) c (cs ++ y') (cs ++ y)]
    split at h
    · next hc => rw [if_pos hc, ih (by omega)]
    · cases h

/-- **What is cut off the front of a text depends on that and on the character behind it.** -/
theorem cut_congr (hd : d.marker = ['#']) {before : Option Char} {c : Char} {cs : Text}
    (hy : y'.head? = y.head?) (h : (d.cut before c (cs ++ y)).2 = (c :: cs).length) :
    d.cut before c (cs ++ y') = d.cut before c (cs ++ y) := by
  have hhead : (cs ++ y').head? = (cs ++ y).head? := by rw [List.head?_append, List.head?_append, hy]
  rw [List.length_cons] at h
  unfold cut at h ⊢
  rw [classHere_congr hd before before c (cs ++ y') (cs ++ y), hhead]
  cases hclass : d.classHere before (c :: (cs ++ y)) with
  | newline | blank | separator => rfl
  | comment =>
    simp only [hclass] at h ⊢
    rw [← List.cons_append] at h
    rw [← List.cons_append, ← List.cons_append, takeWhile_congr hy h, h]
    rfl
  | quote =>
    simp only [hclass] at h ⊢
    rw [stringRest_congr hy (by omega), h]
  | word =>
    simp only [hclass] at h ⊢
    rw [run_congr hd hy (by omega), h]
  | symbol =>
    simp only [hclass] at h ⊢
    by_cases heq : c = '=' && (cs ++ y).head? ≠ some '='
    · rw [if_pos heq, if_pos heq]
    · rw [if_neg heq] at h ⊢
      dsimp only at h
      rw [if_neg heq, run_congr hd hy (by omega), h]

/-- **The pieces before a piece** stay when the text changes behind the first character of that piece. -/
theorem pieces_split (hd : d.marker = ['#']) {front back : List Piece} {q : Piece}
    (h : (d.pieces none t).1 = front ++ q :: back) :
    ∃ y, t = front.flatMap Piece.text ++ y ∧ (∀ c ∈ front.flatMap Piece.text, c ≠ '\n') ∧
      (d.pieces none y).1 = q :: back ∧ ∀ y', y'.head? = y.head? →
        d.pieces none (front.flatMap Piece.text ++ y') =
          (front ++ (d.pieces none y').1, (d.pieces none y').2) := by
  induction front generalizing t with
  | nil => exact ⟨t, rfl, by simp, h, fun y' _ => rfl⟩
  | cons f front ih =>
    cases t with
    | nil => rw [pieces] at h; cases h
    | cons c cs =>
      rw [pieces_cons] at h
      split at h
      case isTrue => simp at h
      case isFalse hgo =>
        obtain ⟨n, hn⟩ : ∃ n, (d.cut none c cs).2 = n + 1 :=
          Nat.exists_eq_succ_of_ne_zero fun h0 => hgo (.inr h0)
        have hfirst := d.cut_noBreak none c cs fun hk => hgo (.inl hk)
        dsimp only at h
        rw [hn, List.take_succ_cons] at hfirst
        rw [hn, List.take_succ_cons, List.drop_succ_cons, pieces_before hd, List.cons_append] at h
        obtain ⟨rfl, hrest⟩ := List.cons.inj h
        obtain ⟨y, hy, hbreak, hq, hother⟩ := ih hrest
        have hcs : cs = cs.take n ++ (front.flatMap Piece.text ++ y) := by
          rw [← hy, List.take_append_drop]
        refine ⟨y, ?_, ?_, hq, fun y' hy' => ?_⟩
        · rw [List.flatMap_cons, List.append_assoc, ← hy]
          show c :: cs = c :: (cs.take n ++ cs.drop n)
          rw [List.take_append_drop]
        · intro x hx
          rw [List.flatMap_cons] at hx
          rcases List.mem_append.1 hx with hx | hx
          · exact hfirst x hx
          · exact hbreak x hx
        · have hne : front.flatMap Piece.text ++ y ≠ [] := by
            intro hnil
            rw [(List.append_eq_nil_iff.1 hnil).2, pieces] at hq
            cases hq
          have hlen : (cs.take n).length = n := by
            rw [← hy, ne_eq, List.drop_eq_nil_iff] at hne
            rw [List.length_take]
            omega
          have hhead : (front.flatMap Piece.text ++ y').head? = (front.flatMap Piece.text ++ y).head? := by
            rw [List.head?_append, List.head?_append, hy']
          have hsame : d.cut none c (cs.take n ++ (front.flatMap Piece.text ++ y)) = d.cut none c cs := by
            rw [← hcs]
          have hcut := cut_congr hd hhead (by rw [hsame, hn, List.length_cons, hlen])
          rw [hsame] at hcut
          rw [List.flatMap_cons, List.append_assoc, List.cons_append, pieces_cons, hcut, if_neg hgo]
          dsimp only
          rw [hn, List.take_succ_cons, List.drop_succ_cons, List.take_left' hlen,
            List.drop_left' hlen, pieces_before hd, hother y' hy', List.cons_append]

/-- A run of word characters ends where no word character follows. -/
theorem run_stops (hd : d.marker = ['#']) (before : Char) (t : Text) :
    (t.drop (d.run .word before t)).head?.any isScriptWord = false := by
  induction t generalizing before with
  | nil => rfl
  | cons c cs ih =>
    rw [run]
    split
    · rw [List.drop_succ_cons]
      exact ih c
    · next hclass =>
      rw [List.drop_zero, List.head?_cons, Option.any_some]
      exact Bool.eq_false_iff.2 fun hc => hclass (classHere_word hd hc (some before) cs)

/-- Words are cut off at word characters. -/
theorem cut_word {before : Option Char} {c : Char} {cs : Text} (h : (d.cut before c cs).1 = .word) :
    (d.cut before c cs).2 = d.run .word c cs + 1 := by
  unfold cut at h ⊢
  cases hclass : d.classHere before (c :: cs) <;> simp only [hclass] at h ⊢
  case symbol => split at h <;> cases h
  all_goals cases h

/-- **A word is cut off whole.** -/
theorem pieces_word_inv (hd : d.marker = ['#']) {back : List Piece}
    (h : (d.pieces none t).1 = ⟨.word, w⟩ :: back) :
    ∃ z, t = w ++ z ∧ w.IsWord ∧ z.head?.any isScriptWord = false ∧ (d.pieces none z).1 = back := by
  have hm : d.marker.head? ≠ some '\n' := by simp [hd]
  obtain ⟨t', ht', hfits⟩ := pieces_fit hm none t [] ⟨.word, w⟩ back h
  have hne : w ≠ [] := d.pieces_ne_nil none t ⟨.word, w⟩ (by simp [h])
  cases t with
  | nil => rw [pieces] at h; cases h
  | cons c cs =>
    rw [pieces_cons] at h
    split at h
    case isTrue hstop =>
      have hk : (d.cut none c cs).1 = .word := congrArg Piece.kind (List.cons.inj h).1
      rcases hstop with hstop | hstop
      · rw [hk] at hstop; cases hstop
      · exact absurd hstop (cut_ne_zero hm none c cs)
    case isFalse hgo =>
      obtain ⟨hpiece, hback⟩ := List.cons.inj h
      have hk : (d.cut none c cs).1 = .word := congrArg Piece.kind hpiece
      have hw : (c :: cs).take (d.cut none c cs).2 = w := congrArg Piece.text hpiece
      refine ⟨(c :: cs).drop (d.cut none c cs).2, ?_, ⟨hne, hfits⟩, ?_, ?_⟩
      · rw [← hw, List.take_append_drop]
      · rw [cut_word hk, List.drop_succ_cons]
        exact run_stops hd c cs
      · rwa [pieces_before hd] at hback

/-! ## Lexemes -/

theorem place_word (hd : d.marker = ['#']) (hw : w.IsWord) (hz : z.head?.any isScriptWord = false) (p : Nat) :
    place p (d.pieces none (w ++ z)).1 = ⟨.word, p, w⟩ :: place (p + w.size) (d.pieces none z).1 := by
  rw [pieces_word hd hw none z hz, pieces_before hd]
  rfl

theorem place_blanks (hd : d.marker = ['#']) {m : Text} (hm : ∀ c ∈ m, isBlank c ∧ c ≠ '\n') (z : Text)
    (p : Nat) : place p (d.pieces none (m ++ z)).1 = place (p + m.size) (d.pieces none z).1 := by
  induction m generalizing p with
  | nil => rfl
  | cons c m ih =>
    obtain ⟨hb, hc⟩ := hm c (List.mem_cons_self ..)
    have hmarker : ∀ c ∈ d.marker, ¬isBlank c := by simp [hd]; decide
    have hsize : p + Text.size [c] + Text.size m = p + Text.size (c :: m) := by
      rw [Text.size_cons, Text.size_cons, Text.size_nil]
      omega
    rw [List.cons_append, pieces_blank hmarker hb hc]
    show place (p + Text.size [c]) (d.pieces none (m ++ z)).1 = _
    rw [ih fun x hx => hm x (List.mem_cons_of_mem _ hx), hsize]

/-- A lexeme comes from a piece, those before it from the pieces before, those behind it from the rest. -/
theorem place_split {ps : List Piece} {pre rest : List Lexeme} {l : Lexeme}
    (h : place p ps = pre ++ l :: rest) :
    ∃ front q back, ps = front ++ q :: back ∧ place p front = pre ∧ q.kind.lexeme? = some l.kind ∧
      l.text = q.text ∧ l.start = p + Piece.totalSize front ∧ place l.stop back = rest := by
  induction ps generalizing p pre with
  | nil => simp [place] at h
  | cons q ps ih =>
    rw [place_cons] at h
    cases hk : q.kind.lexeme? with
    | none =>
      rw [hk, Option.map_none, Option.toList_none, List.nil_append] at h
      obtain ⟨front, q', back, rfl, hpre, hkind, htext, hstart, hrest⟩ := ih h
      refine ⟨q :: front, q', back, rfl, ?_, hkind, htext, ?_, hrest⟩
      · rw [place_cons, hk, Option.map_none, Option.toList_none, List.nil_append, hpre]
      · rw [hstart, Piece.totalSize_cons, Nat.add_assoc]
    | some k =>
      rw [hk, Option.map_some, Option.toList_some, List.singleton_append] at h
      cases pre with
      | nil =>
        obtain ⟨rfl, hrest⟩ := List.cons.inj h
        exact ⟨[], q, ps, rfl, rfl, hk, rfl, rfl, hrest⟩
      | cons l' pre =>
        obtain ⟨rfl, hrest⟩ := List.cons.inj h
        obtain ⟨front, q', back, rfl, hpre, hkind, htext, hstart, hrest⟩ := ih hrest
        refine ⟨q :: front, q', back, rfl, ?_, hkind, htext, ?_, hrest⟩
        · rw [place_cons, hk, Option.map_some, Option.toList_some, List.singleton_append, hpre]
        · rw [hstart, Piece.totalSize_cons, Nat.add_assoc]

/-- Behind a comment stands the end of the line: its first lexeme, if any, is the line break. -/
theorem place_comment (hd : d.marker = ['#']) {c : Char} {cs : Text}
    (hc : d.classHere none (c :: cs) = .comment) {n : Lexeme} {rest : List Lexeme}
    (h : place p (d.pieces none (c :: cs)).1 = n :: rest) : n.kind = .newline := by
  have hcut : d.cut none c cs = (.comment, ((c :: cs).takeWhile (· ≠ '\n')).length) := by rw [cut, hc]
  have hne := cut_ne_zero (d := d) (by simp [hd]) none c cs
  have hsplit := List.takeWhile_append_dropWhile (p := (· ≠ '\n')) (l := c :: cs)
  have hdrop : (c :: cs).drop (d.cut none c cs).2 = (c :: cs).dropWhile (· ≠ '\n') := by
    have hleft := congrArg (List.drop ((c :: cs).takeWhile (· ≠ '\n')).length) hsplit
    rw [List.drop_left] at hleft
    rw [hcut, hleft]
  have hhead := List.head?_dropWhile_not (· ≠ '\n') (c :: cs)
  rw [pieces_cons, if_neg (by rw [hcut] at hne ⊢; simpa using hne)] at h
  dsimp only at h
  rw [hdrop, hcut, pieces_before hd, place_cons] at h
  cases hrest : (c :: cs).dropWhile (· ≠ '\n') with
  | nil =>
    rw [hrest, pieces] at h
    cases h
  | cons x xs =>
    rw [hrest] at hhead h
    obtain rfl : x = '\n' := by simpa using hhead
    have hbreak : d.cut none '\n' xs = (.newline, 1) := by
      have hclass : d.classHere none ('\n' :: xs) = .newline := by
        simp [classHere, opensComment, hd, CharClass.of_newline]
      rw [cut, hclass]
    rw [pieces_cons, hbreak, if_pos (.inl rfl)] at h
    rw [← (List.cons.inj h).1]

/-- **Where the first lexeme of a text is a word, blanks stand before it.** -/
theorem exists_name (hd : d.marker = ['#']) {n : Lexeme} {rest : List Lexeme}
    (h : place p (d.pieces none t).1 = n :: rest) (hn : n.kind = .word) :
    ∃ m z, t = m ++ (n.text ++ z) ∧ (∀ c ∈ m, isBlank c ∧ c ≠ '\n') ∧ n.start = p + m.size ∧
      n.text.IsWord ∧ z.head?.any isScriptWord = false ∧ rest = place n.stop (d.pieces none z).1 := by
  have hmarker : ∀ c ∈ d.marker, ¬isBlank c := by simp [hd]; decide
  induction t generalizing p with
  | nil => rw [pieces] at h; cases h
  | cons c cs ih =>
    obtain ⟨w, back, hps⟩ : ∃ w back, (d.pieces none (c :: cs)).1 = ⟨(d.cut none c cs).1, w⟩ :: back := by
      rw [pieces_cons]
      split <;> exact ⟨_, _, rfl⟩
    have hkind : ∀ k, (d.cut none c cs).1.lexeme? = some k → k = .word := by
      intro k hk
      rw [hps, place_cons, hk] at h
      rw [← hn, ← (List.cons.inj h).1]
    cases hclass : d.classHere none (c :: cs) with
    | blank =>
      have hof := of_eq_of_classHere hclass (by simp)
      have hb := CharClass.isBlank_of_eq_blank hof
      have hc : c ≠ '\n' := by
        rintro rfl
        rw [CharClass.of_newline] at hof
        cases hof
      rw [pieces_blank hmarker hb hc] at h
      obtain ⟨m, z, rfl, hm, hstart, hword, hz, hrest⟩ := ih h
      refine ⟨c :: m, z, rfl, ?_, ?_, hword, hz, hrest⟩
      · intro x hx
        rcases List.mem_cons.1 hx with rfl | hx
        · exact ⟨hb, hc⟩
        · exact hm x hx
      · rw [hstart, Text.size_cons, Text.size_cons, Text.size_nil]
        omega
    | comment =>
      rw [place_comment hd hclass h] at hn
      cases hn
    | word =>
      have hk : (d.cut none c cs).1 = .word := by rw [cut, hclass]
      rw [hk] at hps
      obtain ⟨z, ht, hword, hz, hback⟩ := pieces_word_inv hd hps
      rw [hps] at h
      obtain ⟨rfl, hrest⟩ := List.cons.inj h
      refine ⟨[], z, ht, by simp, rfl, hword, hz, ?_⟩
      rw [hback]
      exact hrest.symm
    | newline | separator | quote =>
      have hk := hkind _ (by rw [cut, hclass]; rfl)
      cases hk
    | symbol =>
      unfold cut at hkind
      simp only [hclass] at hkind
      split at hkind
      · cases hkind _ rfl
      · cases hkind _ rfl

end Dialect

/-! ## Tokens -/

/-- Whether the token is an `if`, of either kind. -/
def Token.isIf (x : Token) : Bool := x.kind = .ifLine || x.kind = .ifBlock

namespace Dialect

variable {d : Dialect} {header : Header} {l n : Lexeme} {ls ls' pre rest : List Lexeme} {x : Token}

/-- Whether the token is a `then`, or is named so. -/
def saysThen (d : Dialect) (x : Token) : Bool := x.kind = .thenWord || d.isKeyword x.nameText .thenWord

theorem saysThen_token {k : TokenKind} (h : d.saysThen (l.token k)) : k = .thenWord := by
  have hnil : d.isKeyword [] .thenWord = false := by
    obtain ⟨marker, ignoreCase⟩ := d
    cases ignoreCase <;> rfl
  rw [saysThen, show (l.token k).nameText = [] from rfl, hnil, Bool.or_false, decide_eq_true_eq] at h
  exact h

theorem ifKind_cons (d : Dialect) (l : Lexeme) (ls : List Lexeme) :
    d.ifKind (l :: ls) =
      if d.lexemeIs .thenWord l then if ls.head?.all Lexeme.endsStatement then .ifBlock else .ifLine
      else d.ifKind ls := by
  rw [ifKind, List.dropWhile_cons]
  cases d.lexemeIs .thenWord l with
  | false => rfl
  | true => cases ls <;> rfl

theorem ifKind_eq_or (d : Dialect) (ls : List Lexeme) : d.ifKind ls = .ifLine ∨ d.ifKind ls = .ifBlock := by
  induction ls with
  | nil => exact .inl rfl
  | cons l ls ih =>
    rw [ifKind_cons]
    split
    · split
      · exact .inr rfl
      · exact .inl rfl
    · exact ih

/-- An `if` with a `then` before a lexeme does not look behind that lexeme. -/
theorem ifKind_of_then (h : ∃ m ∈ pre, d.lexemeIs .thenWord m) (r r' : List Lexeme) :
    d.ifKind (pre ++ l :: r') = d.ifKind (pre ++ l :: r) := by
  induction pre with
  | nil => simp at h
  | cons m pre ih =>
    have hhead : (pre ++ l :: r').head? = (pre ++ l :: r).head? := by
      rw [List.head?_append, List.head?_append]
      rfl
    rw [List.cons_append, List.cons_append, ifKind_cons, ifKind_cons, hhead]
    by_cases hm : d.lexemeIs .thenWord m
    · rw [if_pos hm, if_pos hm]
    · have hpre : ∃ m ∈ pre, d.lexemeIs .thenWord m := by
        obtain ⟨m', hm', hthen⟩ := h
        rcases List.mem_cons.1 hm' with rfl | hm'
        · exact absurd hthen hm
        · exact ⟨m', hm', hthen⟩
      rw [if_neg hm, if_neg hm, ih hpre]

/-- Where the pieces start does not matter to an `if` before them. -/
theorem ifKind_place (p : Nat) (ps : List Piece) : d.ifKind (place p ps) = d.ifKind (place 0 ps) := by
  rw [← Nat.zero_add p, place_shift, ifKind_map (Lexeme.shift_kind p) (fun l k => rfl)]

/-- An `if` does not see a name change between words that spell no `then`. -/
theorem ifKind_change {n' : Lexeme} (hn : n.kind = .word) (hn' : n'.kind = .word)
    (h : d.lexemeIs .thenWord n = false) (h' : d.lexemeIs .thenWord n' = false)
    (hls : d.ifKind ls' = d.ifKind ls) (ms : List Lexeme) :
    d.ifKind (ms ++ l :: n' :: ls') = d.ifKind (ms ++ l :: n :: ls) := by
  induction ms with
  | nil => simp [ifKind_cons, Lexeme.endsStatement, hn, hn', h, h', hls]
  | cons m ms ih =>
    have hhead : (ms ++ l :: n' :: ls').head? = (ms ++ l :: n :: ls).head? := by
      rw [List.head?_append, List.head?_append]
      rfl
    rw [List.cons_append, List.cons_append, ifKind_cons, ifKind_cons, ih, hhead]

/-- What the reader makes of the next token: a token that looks at most at the next lexeme, an `if`, or a
    keyword that takes the word after it, with and without it. -/
inductive ReadStep (d : Dialect) (header : Header) (l : Lexeme) (ls : List Lexeme) : Prop
  | plain (k : TokenKind) (next : Header) (hthen : k = .thenWord → d.lexemeIs .thenWord l)
      (hblock : k ≠ .beginBlock ∧ k ≠ .endThing)
      (hread : ∀ ls', ls'.head? = ls.head? → d.read header (l :: ls') = l.token k :: d.read next ls')
  | cond (hread : ∀ ls', d.read header (l :: ls') = l.token (d.ifKind ls') :: d.read header ls')
  | bare (bare named : TokenKind) (hl : l.kind = .word)
      (hfold : (d.keyword? l.text).bind Keyword.folding = some (bare, named))
      (hread : ∀ ls', ls'.head? = ls.head? → d.read header (l :: ls') = l.token bare :: d.read header ls')
  | named (bare named : TokenKind) (hl : l.kind = .word)
      (hfold : (d.keyword? l.text).bind Keyword.folding = some (bare, named)) (n : Lexeme)
      (ls' : List Lexeme) (hls : ls = n :: ls') (hn : n.kind = .word)

theorem folding_cases {k : Option Keyword} {bare named : TokenKind}
    (h : k.bind Keyword.folding = some (bare, named)) :
    bare = .endBare ∧ named = .endThing ∨ bare = .nextBare ∧ named = .nextVar ∨
      bare = .beginBlock ∧ named = .beginBlock := by
  obtain ⟨k, -, hk⟩ := Option.bind_eq_some_iff.1 h
  cases k <;> cases hk <;> simp

/-- A keyword takes the word after it for its name. -/
theorem read_named (hl : l.kind = .word) {bare named : TokenKind}
    (hfold : (d.keyword? l.text).bind Keyword.folding = some (bare, named)) (hn : n.kind = .word)
    (ls : List Lexeme) : d.read header (l :: n :: ls) = l.tokenNamed named n :: d.read header ls := by
  rw [read.eq_def]
  simp [hl, hfold, hn]

theorem plainKind_eq_or (ls : List Lexeme) : plainKind ls = .var ∨ plainKind ls = .expr := by
  rw [plainKind]
  split
  · exact .inl rfl
  · exact .inr rfl

/-- A word that stays a token of its own is no part of a block, and is a `then` if it spells one. -/
theorem wordKind_spec (d : Dialect) (header : Header) (k : Option Keyword) (ls : List Lexeme) :
    (d.wordKind header k ls).1 ≠ .beginBlock ∧ (d.wordKind header k ls).1 ≠ .endThing ∧
      ((d.wordKind header k ls).1 = .thenWord → k = some .thenWord) := by
  have hplain := plainKind_eq_or ls
  cases k with
  | none => rcases hplain with h | h <;> simp [wordKind, h]
  | some k =>
    cases k with
    | ifWord => rcases d.ifKind_eq_or ls with h | h <;> simp [wordKind, h]
    | elseWord =>
      simp only [wordKind]
      split <;> simp
    | toWord | stepWord =>
      simp only [wordKind]
      split
      · simp
      · rcases hplain with h | h <;> simp [h]
    | _ => rcases hplain with h | h <;> simp [wordKind, h]

/-- Any word but `if` looks at the next lexeme only. -/
theorem wordKind_congr {k : Option Keyword} (hk : k ≠ some .ifWord) (hls : ls'.head? = ls.head?) :
    d.wordKind header k ls' = d.wordKind header k ls := by
  have hplain : plainKind ls' = plainKind ls := by rw [plainKind, plainKind, hls]
  cases k with
  | none => simp only [wordKind, hplain]
  | some k =>
    cases k with
    | ifWord => exact absurd rfl hk
    | elseWord => simp only [wordKind, hls]
    | _ => simp only [wordKind, hplain]

theorem readStep_word (hl : l.kind = .word) (ls : List Lexeme) : d.ReadStep header l ls := by
  cases hfold : (d.keyword? l.text).bind Keyword.folding with
  | some kinds =>
    obtain ⟨bare, named⟩ := kinds
    cases ls with
    | nil =>
      refine .bare bare named hl hfold fun ls' hls' => ?_
      obtain rfl : ls' = [] := by simpa using hls'
      rw [read.eq_def]
      simp [hl, hfold, read]
    | cons n ls =>
      by_cases hn : n.kind = .word
      · exact .named bare named hl hfold n ls rfl hn
      · refine .bare bare named hl hfold fun ls' hls' => ?_
        obtain ⟨ls'', rfl⟩ : ∃ ls'', ls' = n :: ls'' := by
          cases ls' with
          | nil => simp at hls'
          | cons n' ls'' => exact ⟨ls'', by simpa using hls'⟩
        rw [read.eq_def]
        simp [hl, hfold, hn]
  | none =>
    have hread : ∀ ls', d.read header (l :: ls') =
        l.token (d.wordKind header (d.keyword? l.text) ls').1 ::
          d.read (d.wordKind header (d.keyword? l.text) ls').2 ls' := by
      intro ls'
      rw [read.eq_def]
      simp [hl, hfold]
    by_cases hif : d.keyword? l.text = some .ifWord
    · exact .cond fun ls' => by rw [hread, hif]; rfl
    · obtain ⟨hbegin, hend, hthen⟩ := d.wordKind_spec header (d.keyword? l.text) ls
      refine .plain _ (d.wordKind header (d.keyword? l.text) ls).2 (fun hk => ?_) ⟨hbegin, hend⟩
        fun ls' hls' => ?_
      · have hspells := List.find?_some (hthen hk)
        simp [lexemeIs, hl, hspells]
      · rw [hread, wordKind_congr hif hls']

theorem readStep (d : Dialect) (header : Header) (l : Lexeme) (ls : List Lexeme) :
    d.ReadStep header l ls := by
  cases hl : l.kind with
  | newline | semicolon =>
    exact .plain .separator .outside (by simp) (by simp) fun ls' _ => by rw [read.eq_def]; simp [hl]
  | string | symbol =>
    exact .plain .expr header (by simp) (by simp) fun ls' _ => by rw [read.eq_def]; simp [hl]
  | equals =>
    by_cases hh : header = .beforeAssign
    · exact .plain .assign .afterAssign (by simp) (by simp) fun ls' _ => by rw [read.eq_def]; simp [hl, hh]
    · exact .plain .expr header (by simp) (by simp) fun ls' _ => by rw [read.eq_def]; simp [hl, hh]
  | word => exact readStep_word hl ls

/-- The same tokens, read before other lexemes: an `if` that no `then` follows may have changed its kind. -/
inductive Reread (d : Dialect) : List Token → List Token → Prop
  | nil : Reread d [] []
  | keep (x : Token) {ts ts' : List Token} (rest : Reread d ts ts') : Reread d (x :: ts) (x :: ts')
  | turn (x : Token) (hx : x.isIf) (k : TokenKind) {ts ts' : List Token}
      (hthen : ∀ y ∈ ts, d.saysThen y = false) (rest : Reread d ts ts') :
      Reread d (x :: ts) ({ x with kind := k } :: ts')

/-- Reading `pre` and then `l` with anything behind it, the reader has the tokens `before` when it comes to
    `l`.  They depend on what stands behind `l` in so far as an `if` among them does. -/
structure ReadsTo (d : Dialect) (header : Header) (pre : List Lexeme) (l : Lexeme) (next : Header)
    (before : List Lexeme → List Token) : Prop where
  read : ∀ r, d.read header (pre ++ l :: r) = before r ++ d.read next (l :: r)
  reread : ∀ r r', d.Reread (before r) (before r')
  same : ∀ r r', (∀ ms, d.ifKind (ms ++ l :: r') = d.ifKind (ms ++ l :: r)) → before r' = before r
  thens : ∀ r, ∀ y ∈ before r, d.saysThen y → ∃ m ∈ pre, d.lexemeIs .thenWord m

namespace ReadsTo

variable {next : Header} {before : List Lexeme → List Token} {skip : List Lexeme} {start : Header}

theorem here (d : Dialect) (header : Header) (l : Lexeme) : d.ReadsTo header [] l header fun _ => [] where
  read _ := rfl
  reread _ _ := .nil
  same _ _ _ := rfl
  thens _ _ hy := by cases hy

/-- A token that does not depend on what stands behind `l`. -/
theorem keep (h : d.ReadsTo header pre l next before)
    (hread : ∀ r, d.read start (skip ++ (pre ++ l :: r)) = x :: d.read header (pre ++ l :: r))
    (hthen : d.saysThen x → ∃ m ∈ skip, d.lexemeIs .thenWord m) :
    d.ReadsTo start (skip ++ pre) l next fun r => x :: before r where
  read r := by rw [List.append_assoc, hread, h.read, List.cons_append]
  reread r r' := .keep x (h.reread r r')
  same r r' hif := by rw [h.same r r' hif]
  thens r y hy hsays := by
    rcases List.mem_cons.1 hy with rfl | hy
    · obtain ⟨m, hm, hthen⟩ := hthen hsays
      exact ⟨m, List.mem_append_left _ hm, hthen⟩
    · obtain ⟨m, hm, hthen⟩ := h.thens r y hy hsays
      exact ⟨m, List.mem_append_right _ hm, hthen⟩

/-- An `if`. -/
theorem turn (h : d.ReadsTo header pre l next before)
    (hread : ∀ r, d.read start (n :: (pre ++ l :: r)) =
      n.token (d.ifKind (pre ++ l :: r)) :: d.read header (pre ++ l :: r)) :
    d.ReadsTo start (n :: pre) l next fun r => n.token (d.ifKind (pre ++ l :: r)) :: before r where
  read r := by rw [List.cons_append, hread, h.read, List.cons_append]
  reread r r' := by
    by_cases hpre : ∃ m ∈ pre, d.lexemeIs .thenWord m
    · rw [ifKind_of_then hpre r r']
      exact .keep _ (h.reread r r')
    · have hif : (n.token (d.ifKind (pre ++ l :: r))).isIf := by
        rcases d.ifKind_eq_or (pre ++ l :: r) with hif | hif <;> rw [hif] <;> rfl
      refine .turn _ hif (d.ifKind (pre ++ l :: r')) (fun y hy => ?_) (h.reread r r')
      exact Bool.eq_false_iff.2 fun hsays => hpre (h.thens r y hy hsays)
  same r r' hif := by rw [h.same r r' hif, hif]
  thens r y hy hsays := by
    rcases List.mem_cons.1 hy with rfl | hy
    · have hk := saysThen_token hsays
      rcases d.ifKind_eq_or (pre ++ l :: r) with hif | hif <;> rw [hif] at hk <;> cases hk
    · obtain ⟨m, hm, hthen⟩ := h.thens r y hy hsays
      exact ⟨m, List.mem_cons_of_mem _ hm, hthen⟩

end ReadsTo

/-- **The reader comes to the lexeme that a token starts with.** -/
theorem exists_readsTo (hx : x ∈ d.read header ls) :
    ∃ pre l rest next before, ls = pre ++ l :: rest ∧ d.ReadsTo header pre l next before ∧
      (d.read next (l :: rest)).head? = some x := by
  induction hlen : ls.length using Nat.strongRecOn generalizing header ls with
  | _ len ih =>
    cases ls with
    | nil =>
      rw [read] at hx
      cases hx
    | cons l ls =>
      rw [List.length_cons] at hlen
      -- a token that looks at most at the next lexeme
      have hplain : ∀ k next, (k = .thenWord → d.lexemeIs .thenWord l) →
          (∀ ls', ls'.head? = ls.head? → d.read header (l :: ls') = l.token k :: d.read next ls') →
          ∃ pre m rest next before, l :: ls = pre ++ m :: rest ∧ d.ReadsTo header pre m next before ∧
            (d.read next (m :: rest)).head? = some x := by
        intro k next hthen hread
        have hhere := hread ls rfl
        rw [hhere] at hx
        rcases List.mem_cons.1 hx with rfl | hx
        · exact ⟨[], l, ls, header, _, rfl, .here d header l, by rw [hhere]; rfl⟩
        · obtain ⟨pre, m, rest, next', before, rfl, hto, hhead⟩ := ih ls.length (by omega) hx rfl
          refine ⟨[l] ++ pre, m, rest, next', _, rfl, hto.keep (fun r => hread _ ?_) fun hsays => ?_, hhead⟩
          · show (pre ++ m :: r).head? = (pre ++ m :: rest).head?
            rw [List.head?_append, List.head?_append]
            rfl
          · exact ⟨l, List.mem_singleton_self l, hthen (saysThen_token hsays)⟩
      cases d.readStep header l ls with
      | plain k next hthen hblock hread => exact hplain k next hthen hread
      | bare bare named hl hfold hread =>
        refine hplain bare header (fun hk => ?_) hread
        rcases folding_cases hfold with ⟨rfl, -⟩ | ⟨rfl, -⟩ | ⟨rfl, -⟩ <;> cases hk
      | cond hread =>
        rw [hread] at hx
        rcases List.mem_cons.1 hx with rfl | hx
        · exact ⟨[], l, ls, header, _, rfl, .here d header l, by rw [hread]; rfl⟩
        · obtain ⟨pre, m, rest, next', before, rfl, hto, hhead⟩ := ih ls.length (by omega) hx rfl
          exact ⟨l :: pre, m, rest, next', _, rfl, hto.turn fun r => hread _, hhead⟩
      | named bare named hl hfold n ls' hls hn =>
        subst hls
        have hread : ∀ r, d.read header (l :: n :: r) = l.tokenNamed named n :: d.read header r :=
          read_named hl hfold hn
        rw [hread] at hx
        rcases List.mem_cons.1 hx with rfl | hx
        · exact ⟨[], l, n :: ls', header, _, rfl, .here d header l, by rw [hread]; rfl⟩
        · obtain ⟨pre, m, rest, next', before, rfl, hto, hhead⟩ :=
            ih ls'.length (by rw [List.length_cons] at hlen; omega) hx rfl
          refine ⟨[l, n] ++ pre, m, rest, next', _, rfl, hto.keep (fun r => hread _) fun hsays => ?_, hhead⟩
          have hne : named ≠ .thenWord := by
            rcases folding_cases hfold with ⟨-, rfl⟩ | ⟨-, rfl⟩ | ⟨-, rfl⟩ <;> simp
          have hword : d.isKeyword n.text .thenWord := by
            simpa [saysThen, hne, Lexeme.tokenNamed, Token.nameText] using hsays
          exact ⟨n, by simp, by simp [lexemeIs, hn, hword]⟩

theorem read_shift (header : Header) (k : Nat) (ls : List Lexeme) :
    d.read header (ls.map (Lexeme.shift k)) = (d.read header ls).map (Token.shift k) := by
  have hread := read_map (d := d) (g := id) (Lexeme.shift_kind k) (fun l k => rfl)
    (Token.shift_token k) (Token.shift_tokenNamed k) header ls
  rwa [List.map_id] at hread

/-- **What a `begin` or a named `end` is read off**: its keyword, alone or with the word after it. -/
theorem block_head (h : (d.read header (l :: ls)).head? = some x)
    (hk : x.kind = .beginBlock ∨ x.kind = .endThing) :
    l.kind = .word ∧ ∃ bare, (d.keyword? l.text).bind Keyword.folding = some (bare, x.kind) ∧
      (x.kind = .beginBlock ∧ x = l.token x.kind ∧ d.read header (l :: ls) = x :: d.read header ls ∨
        ∃ n ls', ls = n :: ls' ∧ n.kind = .word ∧ x = l.tokenNamed x.kind n) := by
  cases d.readStep header l ls with
  | plain k next hthen hblock hread =>
    rw [hread ls rfl] at h
    cases h
    rcases hk with hk | hk
    · exact absurd hk hblock.1
    · exact absurd hk hblock.2
  | cond hread =>
    rw [hread ls] at h
    cases h
    rcases d.ifKind_eq_or ls with hif | hif <;> rcases hk with hk | hk <;> cases hif.symm.trans hk
  | bare bare named hl hfold hread =>
    have hhere := hread ls rfl
    rw [hhere] at h
    cases h
    rcases folding_cases hfold with ⟨rfl, -⟩ | ⟨rfl, -⟩ | ⟨rfl, rfl⟩
    · rcases hk with hk | hk <;> cases hk
    · rcases hk with hk | hk <;> cases hk
    · exact ⟨hl, .beginBlock, hfold, .inl ⟨rfl, rfl, hhere⟩⟩
  | named bare named hl hfold n ls' hls hn =>
    subst hls
    rw [read_named hl hfold hn] at h
    cases h
    exact ⟨hl, bare, hfold, .inr ⟨n, ls', rfl, hn, rfl⟩⟩

end Dialect

/-! ## The line -/

/-- The edit that gives a token the name `v`. -/
def Token.naming (x : Token) (v : Text) : Edit :=
  match x.name with
  | some old => ⟨old.start, old.stop, v⟩
  | none => ⟨x.stop, x.stop, ' ' :: v⟩

namespace Dialect

variable {d : Dialect} {v : Text} {x : Token}

/-- What becomes of a line when its token `x` gets the name `v`: between `u` and `z` the text `w` becomes
    `r`, the token becomes `x'`, the tokens `before` it become `before'`, and those behind it, `behind` as
    they stand alone, are moved. -/
structure Renaming (d : Dialect) (p : Nat) (x : Token) (v u w r z : Text) (x' : Token)
    (before before' behind : List Token) : Prop where
  tokens : d.tokensOf (place p (d.pieces none (u ++ (w ++ z))).1) = before ++ x :: behind.map (.shift x.stop)
  tokens' : d.tokensOf (place p (d.pieces none (u ++ (r ++ z))).1) = before' ++ x' :: behind.map (.shift x'.stop)
  edit : x.naming v = ⟨p + u.size, p + u.size + w.size, r⟩
  within : x.start < p + u.size
  stop : x.stop = p + u.size + w.size
  stop' : x'.stop = p + u.size + r.size
  start : x'.start = x.start
  kind : x'.kind = x.kind
  name : x'.name.map Name.text = some v
  reread : d.Reread before before'
  same : x.kind = .endThing → d.isKeyword x.nameText .thenWord = false → d.isKeyword v .thenWord = false →
    before' = before
  noBreak : ∀ c ∈ u ++ w ++ r, c ≠ '\n'

/-- The tokens of a text read from inside a header are moved with the text. -/
theorem read_place (header : Header) (p : Nat) (ps : List Piece) :
    d.read header (place p ps) = (d.read header (place 0 ps)).map (.shift p) := by
  rw [← read_shift, ← place_shift, Nat.zero_add]

/-- A line that starts with the pieces `front` and a keyword behind them that takes a name into tokens of
    kind `k`; the reader has the tokens `before` when it comes to the keyword. -/
structure KeywordAt (d : Dialect) (p : Nat) (k : TokenKind) (front : List Piece) (kw : Text) (next : Header)
    (before : List Lexeme → List Token) : Prop where
  noBreak : ∀ c ∈ front.flatMap Piece.text, c ≠ '\n'
  pieces : ∀ y, y.head? = kw.head? → d.pieces none (front.flatMap Piece.text ++ y) =
    (front ++ (d.pieces none y).1, (d.pieces none y).2)
  word : kw.IsWord
  readsTo : d.ReadsTo .outside (place p front) ⟨.word, p + Piece.totalSize front, kw⟩ next before
  takes : ∃ bare, (d.keyword? kw).bind Keyword.folding = some (bare, k)

namespace KeywordAt

variable {p : Nat} {k : TokenKind} {front : List Piece} {kw m z : Text} {next : Header}
  {before : List Lexeme → List Token}

/-- The lexemes of the line with `z` behind the keyword. -/
theorem place (h : d.KeywordAt p k front kw next before) (hd : d.marker = ['#'])
    (hz : z.head?.any isScriptWord = false) :
    place p (d.pieces none (front.flatMap Piece.text ++ (kw ++ z))).1 =
      BlockScript.place p front ++ ⟨.word, p + Piece.totalSize front, kw⟩ ::
        BlockScript.place (p + Piece.totalSize front + kw.size) (d.pieces none z).1 := by
  rw [h.pieces _ (h.word.head?_append z), place_append, place_word hd h.word hz]

/-- The tokens of the line with the name `v` behind the keyword, after blanks. -/
theorem tokens (h : d.KeywordAt p k front kw next before) (hd : d.marker = ['#'])
    (hm : ∀ c ∈ m, isBlank c ∧ c ≠ '\n') (hne : m ≠ []) (hv : v.IsWord)
    (hz : z.head?.any isScriptWord = false) :
    let n : Lexeme := ⟨.word, p + Piece.totalSize front + kw.size + m.size, v⟩
    d.tokensOf (BlockScript.place p (d.pieces none (front.flatMap Piece.text ++ (kw ++ (m ++ (v ++ z))))).1) =
      before (n :: BlockScript.place n.stop (d.pieces none z).1) ++
        Lexeme.tokenNamed ⟨.word, p + Piece.totalSize front, kw⟩ k n ::
          (d.read next (BlockScript.place 0 (d.pieces none z).1)).map (.shift n.stop) := by
  intro n
  have hblank : (m ++ (v ++ z)).head?.any isScriptWord = false := by
    cases m with
    | nil => exact absurd rfl hne
    | cons c m =>
      obtain ⟨hb, hc⟩ := hm c (List.mem_cons_self ..)
      simp [isScriptWord, CharClass.of_isBlank hb hc]
  obtain ⟨bare, hfold⟩ := h.takes
  rw [h.place hd hblank, place_blanks hd hm, place_word hd hv hz, tokensOf, h.readsTo.read,
    read_named rfl hfold rfl, read_place]
  rfl

end KeywordAt

/-- **A `begin` or a named `end` on a line.** -/
theorem exists_keywordAt (hd : d.marker = ['#']) {line : Text} {p : Nat}
    (hx : x ∈ d.tokensOf (place p (d.pieces none line).1)) (hk : x.kind = .beginBlock ∨ x.kind = .endThing) :
    ∃ front kw z next before, line = front.flatMap Piece.text ++ (kw ++ z) ∧
      z.head?.any isScriptWord = false ∧ d.KeywordAt p x.kind front kw next before ∧
      (x.kind = .beginBlock ∧ x = Lexeme.token ⟨.word, p + Piece.totalSize front, kw⟩ x.kind ∧
          d.tokensOf (place p (d.pieces none line).1) =
            before (place x.stop (d.pieces none z).1) ++ x :: d.read next (place x.stop (d.pieces none z).1) ∨
        ∃ m w z', z = m ++ (w ++ z') ∧ (∀ c ∈ m, isBlank c ∧ c ≠ '\n') ∧ m ≠ [] ∧ w.IsWord ∧
          z'.head?.any isScriptWord = false ∧
          x = Lexeme.tokenNamed ⟨.word, p + Piece.totalSize front, kw⟩ x.kind
            ⟨.word, p + Piece.totalSize front + kw.size + m.size, w⟩) := by
  obtain ⟨pre, ⟨lk, lstart, kw⟩, rest, next, before, hls, hto, hhead⟩ := exists_readsTo hx
  obtain ⟨hlk, bare, hfold, hcase⟩ := block_head hhead hk
  obtain ⟨front, q, back, hps, rfl, hqk, htext, hstart, hback⟩ := place_split hls
  dsimp only at hlk hfold hqk htext hstart
  subst hlk hstart
  obtain rfl : q = ⟨.word, kw⟩ := by rw [htext, ← kind_eq_word hqk]
  obtain ⟨y, rfl, hbreak, hy, hfront⟩ := pieces_split hd hps
  obtain ⟨z, rfl, hkw, hz, rfl⟩ := pieces_word_inv hd hy
  rw [hkw.head?_append] at hfront
  refine ⟨front, kw, z, next, before, rfl, hz, ⟨hbreak, hfront, hkw, hto, bare, hfold⟩, ?_⟩
  rcases hcase with ⟨hbegin, hxl, hread⟩ | ⟨⟨nk, nstart, w⟩, ls', rfl, hn, hxl⟩
  · refine .inl ⟨hbegin, hxl, ?_⟩
    have hstop : x.stop = p + Piece.totalSize front + kw.size := congrArg Token.stop hxl
    rw [hls, tokensOf, hto.read, hread, ← hback, hstop]
    rfl
  · obtain ⟨m, z', rfl, hm, hstart, hw, hz', -⟩ := exists_name hd hback hn
    dsimp only at hn hstart hw hz'
    subst hn hstart
    refine .inr ⟨m, w, z', rfl, hm, ?_, hw, hz', hxl⟩
    -- two words in a row would be one
    rintro rfl
    obtain ⟨hne, hchars⟩ := hw
    cases w with
    | nil => exact absurd rfl hne
    | cons c cs => simp [hchars c] at hz

/-- A bare keyword gets a name: it is put behind the keyword, after a space. -/
theorem KeywordAt.renaming_bare {p : Nat} {front : List Piece} {kw z : Text} {next : Header}
    {before : List Lexeme → List Token} (h : d.KeywordAt p x.kind front kw next before)
    (hd : d.marker = ['#']) (hz : z.head?.any isScriptWord = false) (hv : v.IsWord)
    (hbegin : x.kind = .beginBlock) (hx : x = Lexeme.token ⟨.word, p + Piece.totalSize front, kw⟩ x.kind)
    (htokens : d.tokensOf (BlockScript.place p (d.pieces none (front.flatMap Piece.text ++ (kw ++ z))).1) =
      before (BlockScript.place x.stop (d.pieces none z).1) ++
        x :: d.read next (BlockScript.place x.stop (d.pieces none z).1)) :
    let n : Lexeme := ⟨.word, p + Piece.totalSize front + kw.size + Text.size [' '], v⟩
    d.Renaming p x v (front.flatMap Piece.text ++ kw) [] (' ' :: v) z
      (Lexeme.tokenNamed ⟨.word, p + Piece.totalSize front, kw⟩ x.kind n)
      (before (BlockScript.place x.stop (d.pieces none z).1))
      (before (n :: BlockScript.place n.stop (d.pieces none z).1))
      (d.read next (BlockScript.place 0 (d.pieces none z).1)) := by
  intro n
  have hspace : ∀ c ∈ [' '], isBlank c ∧ c ≠ '\n' := by
    intro c hc
    obtain rfl := List.mem_singleton.1 hc
    decide
  have hnone : x.name = none := congrArg Token.name hx
  have hstop : x.stop = p + Text.size (front.flatMap Piece.text ++ kw) := by
    rw [Text.size_append, ← Nat.add_assoc]
    exact congrArg Token.stop hx
  exact {
    tokens := by rw [← read_place, List.append_assoc, List.nil_append, htokens]
    tokens' := by
      rw [List.append_assoc]
      exact h.tokens hd hspace (by simp) hv hz
    edit := by
      rw [Token.naming, hnone, hstop]
      rfl
    within := by
      have hstart : x.start = p + Piece.totalSize front := congrArg Token.start hx
      have hpos := Text.size_pos h.word.1
      rw [hstart, Text.size_append, Piece.totalSize]
      omega
    stop := hstop
    stop' := by
      show n.start + n.text.size = _
      rw [Text.size_append, Text.size_cons]
      simp only [n, Piece.totalSize, Text.size_cons, Text.size_nil]
      omega
    start := (congrArg Token.start hx).symm
    kind := rfl
    name := rfl
    reread := h.readsTo.reread _ _
    same := fun hk => by
      rw [hbegin] at hk
      cases hk
    noBreak := by
      intro c hc
      simp only [List.append_nil, List.mem_append, List.mem_cons] at hc
      rcases hc with (hc | hc) | rfl | hc
      · exact h.noBreak c hc
      · exact h.word.noBreak c hc
      · decide
      · exact hv.noBreak c hc }

/-- A named keyword gets another name. -/
theorem KeywordAt.renaming_named {p : Nat} {front : List Piece} {kw m w z : Text} {next : Header}
    {before : List Lexeme → List Token} (h : d.KeywordAt p x.kind front kw next before)
    (hd : d.marker = ['#']) (hm : ∀ c ∈ m, isBlank c ∧ c ≠ '\n') (hne : m ≠ []) (hw : w.IsWord)
    (hz : z.head?.any isScriptWord = false) (hv : v.IsWord)
    (hx : x = Lexeme.tokenNamed ⟨.word, p + Piece.totalSize front, kw⟩ x.kind
      ⟨.word, p + Piece.totalSize front + kw.size + m.size, w⟩) :
    let n : Lexeme := ⟨.word, p + Piece.totalSize front + kw.size + m.size, v⟩
    d.Renaming p x v (front.flatMap Piece.text ++ (kw ++ m)) w v z
      (Lexeme.tokenNamed ⟨.word, p + Piece.totalSize front, kw⟩ x.kind n)
      (before (⟨.word, p + Piece.totalSize front + kw.size + m.size, w⟩ ::
        BlockScript.place x.stop (d.pieces none z).1))
      (before (n :: BlockScript.place n.stop (d.pieces none z).1))
      (d.read next (BlockScript.place 0 (d.pieces none z).1)) := by
  intro n
  have hname : x.name = some ⟨p + Piece.totalSize front + kw.size + m.size, w⟩ := congrArg Token.name hx
  have hsize : p + Text.size (front.flatMap Piece.text ++ (kw ++ m)) =
      p + Piece.totalSize front + kw.size + m.size := by
    rw [Text.size_append, Text.size_append, Piece.totalSize]
    omega
  have hstop : x.stop = p + Piece.totalSize front + kw.size + m.size + w.size := congrArg Token.stop hx
  have hline : ∀ y : Text, front.flatMap Piece.text ++ (kw ++ m) ++ y =
      front.flatMap Piece.text ++ (kw ++ (m ++ y)) := by simp
  exact {
    tokens := by
      rw [hline, h.tokens hd hm hne hw hz, ← hx, hstop]
      rfl
    tokens' := by
      rw [hline]
      exact h.tokens hd hm hne hv hz
    edit := by
      rw [Token.naming, hname, hsize]
      rfl
    within := by
      have hstart : x.start = p + Piece.totalSize front := congrArg Token.start hx
      have hpos := Text.size_pos h.word.1
      omega
    stop := by rw [hstop, hsize]
    stop' := by
      rw [hsize]
      rfl
    start := (congrArg Token.start hx).symm
    kind := rfl
    name := rfl
    reread := h.readsTo.reread _ _
    same := by
      intro _ hold hnew
      rw [Token.nameText, hname] at hold
      exact h.readsTo.same _ _ fun ms =>
        ifKind_change rfl rfl (by simpa [lexemeIs] using hold) (by simpa [lexemeIs, n] using hnew)
          ((ifKind_place _ _).trans (ifKind_place _ _).symm) ms
    noBreak := by
      intro c hc
      simp only [List.mem_append] at hc
      rcases hc with ((hc | hc | hc) | hc) | hc
      · exact h.noBreak c hc
      · exact h.word.noBreak c hc
      · exact (hm c hc).2
      · exact hw.noBreak c hc
      · exact hv.noBreak c hc }

/-- **A line in which a token gets another name, or a first one.** -/
theorem exists_renaming (hd : d.marker = ['#']) {line : Text} {p : Nat}
    (hx : x ∈ d.tokensOf (place p (d.pieces none line).1)) (hk : x.kind = .beginBlock ∨ x.kind = .endThing)
    (hv : v.IsWord) :
    ∃ u w r z x' before before' behind, line = u ++ (w ++ z) ∧
      d.Renaming p x v u w r z x' before before' behind := by
  obtain ⟨front, kw, z, next, before, rfl, hz, hat, hcase⟩ := exists_keywordAt hd hx hk
  rcases hcase with ⟨hbegin, hxl, htokens⟩ | ⟨m, w, z', rfl, hm, hne, hw, hz', hxl⟩
  · exact ⟨_, _, _, _, _, _, _, _, by simp, hat.renaming_bare hd hz hv hbegin hxl htokens⟩
  · exact ⟨_, _, _, _, _, _, _, _, by simp, hat.renaming_named hd hm hne hw hz' hv hxl⟩

end Dialect

end BlockScript
