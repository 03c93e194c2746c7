/-
  The levels of lines, computed from their tokens alone.

  Indenting a text asks, line by line, for the opener a line hangs on, and looks up the level of that
  opener's line by its offset.  `levels` does without offsets: it goes through the lines with the tokens
  met so far, each carrying the level of its line.  This is enough because no search looks at offsets:
  a change of offsets goes through every search (`openerIn_map`, `unclosedIn_map`, `hangsOn_map`).

  `indentLines_eq` says that as long as no search runs out of its budget, the lines are indented by
  these levels.
-/
import BlockScript.Proofs.LineLexing
import BlockScript.Proofs.TokenSearch

namespace BlockScript

/-! ## Searches do not look at offsets -/

/-- A change of tokens that leaves all but offsets alone. -/
structure Relabels (f : Token → Token) : Prop where
  kind : ∀ t, (f t).kind = t.kind
  name : ∀ t, (f t).nameText = t.nameText
  asElse : ∀ t, f t.asElse = (f t).asElse

namespace Relabels

variable {f : Token → Token} (hf : Relabels f)

include hf

theorem roleAfter (previous : Option Token) (t : Token) :
    (f t).roleAfter (previous.map f) = t.roleAfter previous := by
  cases previous <;> simp [Token.roleAfter, hf.kind]

theorem continuesBetween (previous : Option Token) (t : Token) (next : Option Token) :
    (f t).continuesBetween (previous.map f) (next.map f) = t.continuesBetween previous next := by
  unfold Token.continuesBetween
  rw [hf.kind]
  cases previous <;> cases next <;> simp [hf.kind]

theorem accepts (P : Profile) (o c : Token) : P.accepts (f o) (f c) = P.accepts o c := by
  rw [Profile.accepts, Profile.accepts, hf.kind, hf.kind, hf.name]

theorem flatAfter (rev : List Token) : BlockScript.flatAfter (rev.map f) = BlockScript.flatAfter rev := by
  have hsep : ∀ ts : List Token, (ts.map f).dropWhile (·.kind = .separator) =
      (ts.dropWhile (·.kind = .separator)).map f := by
    intro ts
    rw [List.dropWhile_map]
    simp only [Function.comp_def, hf.kind]
  have hstatement : ∀ ts : List Token, (ts.map f).takeWhile (·.kind ≠ .separator) =
      (ts.takeWhile (·.kind ≠ .separator)).map f := by
    intro ts
    rw [List.takeWhile_map]
    simp only [Function.comp_def, hf.kind]
  rw [BlockScript.flatAfter, BlockScript.flatAfter, hsep, hstatement, ← List.map_reverse]
  generalize ((rev.dropWhile (·.kind = .separator)).takeWhile (·.kind ≠ .separator)).reverse = ts
  rcases ts with _ | ⟨first, _ | ⟨second, rest⟩⟩ <;> simp [hf.kind]

end Relabels

namespace Profile

variable {P : Profile} {f : Token → Token}

/-- A search meets relabelled tokens as it meets the tokens. -/
theorem meet_map (hf : Relabels f) {w w' : Walk} (hw : w'.pending = w.pending.map f) (role : Role)
    (t : Token) :
    (P.meet w' role (f t)).1.pending = (P.meet w role t).1.pending.map f ∧
      (P.meet w' role (f t)).2 = (P.meet w role t).2 := by
  have hpop : popFirst (P.accepts (f t)) w'.pending =
      (popFirst (P.accepts t) w.pending).map fun r => (f r.1, r.2.map f) := by
    rw [hw, popFirst_map]
    simp only [hf.accepts]
  unfold meet
  cases role with
  | closer => simp [hw]
  | opener =>
    simp only [hpop]
    cases popFirst (P.accepts t) w.pending with
    | none => exact ⟨hw, rfl⟩
    | some r => exact ⟨rfl, rfl⟩
  | inner => exact ⟨hw, rfl⟩
  | neutral => exact ⟨hw, rfl⟩

theorem openerIn_map (hf : Relabels f) {w w' : Walk} (hw : w'.pending = w.pending.map f)
    (rev : List Token) : P.openerIn w' (rev.map f) = (P.openerIn w rev).map f := by
  induction rev generalizing w w' with
  | nil => rfl
  | cons t rev ih =>
    obtain ⟨hpending, -⟩ := meet_map (P := P) hf hw (t.roleAfter rev.head?) t
    simp only [List.map_cons, openerIn, List.head?_map, hf.roleAfter, hpending, List.isEmpty_map,
      ih hpending]
    split <;> rfl

theorem unclosedIn_map (hf : Relabels f) {w w' : Walk} (hw : w'.pending = w.pending.map f)
    (rev : List Token) : (P.unclosedIn w' (rev.map f)).1 = (P.unclosedIn w rev).1.map f := by
  induction rev generalizing w w' with
  | nil => rfl
  | cons t rev ih =>
    obtain ⟨hpending, hopen⟩ := meet_map (P := P) hf hw (t.roleAfter rev.head?) t
    simp only [List.map_cons, unclosedIn, List.head?_map, hf.roleAfter, hopen]
    split
    · rfl
    · exact ih hpending

/-! ## The opener a line hangs on -/

/-- The opener that a line is aligned with, the line starting with `first` after the tokens `rev`. -/
def alignedIn (P : Profile) (rev : List Token) (first : Token) (next : Option Token) : Option Token :=
  if first.continuesBetween rev.head? next then P.openerIn { pending := [first.asElse] } rev
  else if first.kind.role = .closer then P.openerIn { pending := [first] } rev
  else if first.kind = .elseBlock then
    if flatAfter rev then none else P.openerIn { pending := [first] } rev
  else none

/-- The opener whose line a line takes its level from, and how many units deeper it stands.  The tokens
    before the line come nearest first. -/
def hangsOn (P : Profile) (rev line later : List Token) : Option Token × Nat :=
  match line.head?.bind fun first => P.alignedIn rev first (line.tail ++ later).head? with
  | some o => (some o, 0)
  | none => ((P.unclosedIn {} rev).1, if (P.unclosedIn {} rev).1.isSome then 1 else 0)

theorem alignedIn_map (hf : Relabels f) (rev : List Token) (first : Token) (next : Option Token) :
    P.alignedIn (rev.map f) (f first) (next.map f) = (P.alignedIn rev first next).map f := by
  have hsearch : ∀ c, P.openerIn { pending := [f c] } (rev.map f) =
      (P.openerIn { pending := [c] } rev).map f := fun c => openerIn_map hf rfl rev
  have helse := hsearch first.asElse
  rw [hf.asElse] at helse
  simp only [alignedIn, List.head?_map, hf.continuesBetween, hf.kind, hf.flatAfter, helse, hsearch]
  repeat' split
  all_goals rfl

theorem hangsOn_map (hf : Relabels f) (rev line later : List Token) :
    P.hangsOn (rev.map f) (line.map f) (later.map f) =
      ((P.hangsOn rev line later).1.map f, (P.hangsOn rev line later).2) := by
  have hunclosed : (P.unclosedIn {} (rev.map f)).1 = (P.unclosedIn {} rev).1.map f :=
    unclosedIn_map hf rfl rev
  have haligned : ((line.map f).head?.bind fun first =>
      P.alignedIn (rev.map f) first ((line.map f).tail ++ later.map f).head?) =
      (line.head?.bind fun first => P.alignedIn rev first (line.tail ++ later).head?).map f := by
    cases line with
    | nil => rfl
    | cons first more =>
      have := alignedIn_map (P := P) hf rev first (more ++ later).head?
      rwa [← List.head?_map, List.map_append] at this
  rw [hangsOn, hangsOn, haligned, hunclosed]
  cases line.head?.bind fun first => P.alignedIn rev first (line.tail ++ later).head? with
  | some o => rfl
  | none => simp

variable {b : Buffer} {s : Scanner} {p : Nat} {rev line later : List Token}

/-- An `else` that is not flat belongs to the opener the search finds over the tokens. -/
theorem openerUnlessFlat_gives (hs : s.Sound P.dialect b) {els : Token} {post : List Token}
    (hk : els.kind = .elseBlock) (h : P.dialect.tokenize b.text = rev.reverse ++ els :: post) :
    s.Gives P.dialect b
      (if (P.isFlatElse b s els).1 then (none, (P.isFlatElse b s els).2)
        else P.openerOf b (P.isFlatElse b s els).2 els)
      (if flatAfter rev then none else P.openerIn { pending := [els] } rev) := by
  have hflat := isFlatElse_gives hs hk h
  have hs' := hflat.follows.sound hs
  generalize P.isFlatElse b s els = q at hflat hs' ⊢
  split
  · next hq =>
    refine ⟨hflat.follows, fun hn => ?_⟩
    rw [← hflat.fst_eq hn, if_pos hq]
  · next hq =>
    have hopener := openerBefore_gives hs' { pending := [els] } (.of_start h)
    refine ⟨hflat.follows.trans hopener.follows, fun hn => ?_⟩
    rw [← hflat.fst_eq (hopener.follows.not_exhausted hn), if_neg hq]
    exact hopener.fst_eq hn

/-- The search for the opener a line is aligned with gives what it gives over the tokens. -/
theorem alignedWith_gives (hs : s.Sound P.dialect b) {first : Token} {post : List Token}
    (h : P.dialect.tokenize b.text = rev.reverse ++ first :: post) :
    s.Gives P.dialect b (P.alignedWith b s first) (P.alignedIn rev first post.head?) := by
  have hcont := (continuesIf_gives hs h).1
  have hs' := hcont.follows.sound hs
  have hcut : P.dialect.Cut b.text first.start rev (first :: post) := .of_start h
  unfold alignedWith
  generalize P.continuesIf b s first = q at hcont hs' ⊢
  obtain ⟨continues, s'⟩ := q
  -- what comes after the look around is right if the look around is, and else the budget is spent
  have hthen : ∀ {r : Option Token × Scanner} {answer : Option Token}, s'.Gives P.dialect b r answer →
      (first.continuesBetween rev.head? post.head? = continues →
        P.alignedIn rev first post.head? = answer) →
      s.Gives P.dialect b r (P.alignedIn rev first post.head?) := by
    intro r answer hr heq
    refine ⟨hcont.follows.trans hr.follows, fun hn => ?_⟩
    rw [hr.fst_eq hn, heq (hcont.fst_eq (hr.follows.not_exhausted hn)).symm]
  dsimp only
  split
  · next hc => exact hthen (openerBefore_gives hs' _ hcut) fun hb => by rw [alignedIn, hb, if_pos hc]
  · next hc =>
    split
    · next hrole =>
      exact hthen (openerBefore_gives hs' _ hcut) fun hb => by
        rw [alignedIn, hb, if_neg hc, if_pos hrole]
    · next hrole =>
      split
      · next hk =>
        exact hthen (openerUnlessFlat_gives hs' hk h) fun hb => by
          rw [alignedIn, hb, if_neg hc, if_neg hrole, if_pos hk]
      · next hk =>
        exact hthen ⟨.refl _, fun _ => rfl⟩ fun hb => by
          rw [alignedIn, hb, if_neg hc, if_neg hrole, if_neg hk]

/-- The opener that the line at offset `p` is aligned with, if it has a first token and that says so. -/
def alignment (P : Profile) (b : Buffer) (p : Nat) : Option Token × Scanner :=
  let r := P.scanner.next P.dialect b p
  if r.1.kind ≠ .edge && r.1.start ≤ b.text.lineEnd p then P.alignedWith b r.2 r.1 else (none, r.2)

theorem findIndentation_eq (p : Nat) :
    P.findIndentation b p =
      let start := b.text.lineStart p
      let q := P.alignment b start
      match q.1 with
      | some o => (⟨some (b.text.lineStart o.start), 0⟩, q.2)
      | none =>
        let u := P.unclosedBefore b q.2 {} start
        (⟨u.1.map (b.text.lineStart ·.start), if u.1.isSome then 1 else 0⟩, u.2.2) := by
  unfold findIndentation alignment
  dsimp only
  generalize P.scanner.next P.dialect b (b.text.lineStart p) = r
  generalize (if r.1.kind ≠ .edge && r.1.start ≤ b.text.lineEnd (b.text.lineStart p) then
    P.alignedWith b r.2 r.1 else (none, r.2)) = q
  rcases q with ⟨_ | o, s⟩
  · dsimp only
    rcases P.unclosedBefore b s {} (b.text.lineStart p) with ⟨_ | o, w, s'⟩ <;> rfl
  · rfl

theorem openerOf_follows (hs : s.Sound P.dialect b) (c : Token) :
    s.Follows P.dialect b (P.openerOf b s c).2 := by
  obtain ⟨post, hcut⟩ := P.dialect.exists_cut b.text c.start
  exact (openerBefore_gives hs _ hcut).follows

theorem alignedWith_follows (hs : s.Sound P.dialect b) (first : Token) :
    s.Follows P.dialect b (P.alignedWith b s first).2 := by
  have hcont := continuesIf_follows hs first
  have hs' := hcont.sound hs
  have hflat := isFlatElse_follows hs' first
  unfold alignedWith
  dsimp only
  split
  · exact hcont.trans (openerOf_follows hs' _)
  · split
    · exact hcont.trans (openerOf_follows hs' _)
    · split
      · split
        · exact hcont.trans hflat
        · exact (hcont.trans hflat).trans (openerOf_follows (hflat.sound hs') _)
      · exact hcont

theorem alignment_follows (p : Nat) : P.scanner.Follows P.dialect b (P.alignment b p).2 := by
  have hnext := (Scanner.next_spec (P.scanner_sound b) p).follows
  unfold alignment
  dsimp only
  split
  · exact hnext.trans (alignedWith_follows (hnext.sound (P.scanner_sound b)) _)
  · exact hnext

theorem findIndentation_follows (p : Nat) :
    P.scanner.Follows P.dialect b (P.findIndentation b p).2 := by
  have haligned := alignment_follows (P := P) (b := b) (b.text.lineStart p)
  rw [findIndentation_eq]
  dsimp only
  split
  · exact haligned
  · obtain ⟨post, hcut⟩ := P.dialect.exists_cut b.text (b.text.lineStart p)
    exact haligned.trans (unclosedBefore_gives (haligned.sound (P.scanner_sound b)) {} hcut).follows

/-- Where a line starts, the opener that it is aligned with is found as over the tokens. -/
theorem alignment_gives (hgap : P.dialect.Gap b.text p rev (line ++ later))
    (hline : ∀ t ∈ line, t.start ≤ b.text.lineEnd p) (hlater : ∀ t ∈ later, b.text.lineEnd p < t.start) :
    P.scanner.Gives P.dialect b (P.alignment b p)
      (line.head?.bind fun first => P.alignedIn rev first (line.tail ++ later).head?) := by
  have hnext := Scanner.next_spec (P.scanner_sound b) p
  have hs := hnext.follows.sound (P.scanner_sound b)
  unfold alignment
  generalize P.scanner.next P.dialect b p = r at hnext hs ⊢
  dsimp only
  cases he : r.2.exhausted with
  | true =>
    have hk : r.1.kind = .edge := hnext.edge he
    rw [if_neg (by simp [hk])]
    exact ⟨hnext.follows, fun hn => absurd hn (by simp [he])⟩
  | false =>
    have ht : r.1 = (line ++ later).head?.getD (Token.edgeAt b.text.size) :=
      (hnext.fst_eq he).trans hgap.tokenAfter
    cases line with
    | nil =>
      have hcond : (r.1.kind ≠ .edge && r.1.start ≤ b.text.lineEnd p) = false := by
        cases later with
        | nil =>
          rw [ht]
          rfl
        | cons x later =>
          have := hlater x (List.mem_cons_self ..)
          have hx : r.1 = x := ht
          rw [hx]
          simp only [Bool.and_eq_false_iff, decide_eq_false_iff_not]
          omega
      rw [hcond]
      exact ⟨hnext.follows, fun _ => rfl⟩
    | cons first more =>
      have hfirst : r.1 = first := ht
      have hne : first.kind ≠ .edge := P.dialect.tokenize_ne_edge b.text first (by simp [hgap.tokens])
      rw [hfirst, if_pos (by simpa [hne] using hline first (List.mem_cons_self ..))]
      have haligned := alignedWith_gives hs hgap.tokens
      exact ⟨hnext.follows.trans haligned.follows, haligned.fst_eq⟩

/-- Where a line starts, its indentation is that of the opener it hangs on, unless the budget runs
    out. -/
theorem indentation_eq (hstart : b.text.lineStart p = p)
    (hgap : P.dialect.Gap b.text p rev (line ++ later)) (hcut : P.dialect.Cut b.text p rev (line ++ later))
    (hline : ∀ t ∈ line, t.start ≤ b.text.lineEnd p) (hlater : ∀ t ∈ later, b.text.lineEnd p < t.start)
    (hn : (P.findIndentation b p).2.exhausted = false) :
    P.indentation b p = ⟨(P.hangsOn rev line later).1.map (b.text.lineStart ·.start),
      (P.hangsOn rev line later).2⟩ := by
  have haligned := alignment_gives hgap hline hlater
  rw [findIndentation_eq, hstart] at hn
  rw [indentation, findIndentation_eq, hstart, hangsOn]
  dsimp only at hn ⊢
  generalize P.alignment b p = q at haligned hn ⊢
  obtain ⟨_ | o, s⟩ := q
  · have hunclosed := unclosedBefore_gives (haligned.follows.sound (P.scanner_sound b)) {} hcut
    have hs := hunclosed.fst_eq hn
    rw [← haligned.fst_eq (hunclosed.follows.not_exhausted hn), ← hs]
  · rw [← haligned.fst_eq hn]
    rfl

end Profile

/-! ## Levels -/

/-- The token without its offsets, carrying the level of its line instead of its start. -/
def Token.onLevel (level : Nat) (t : Token) : Token := { t.bare with start := level }

theorem Token.onLevel_bare (level : Nat) (t : Token) : t.bare.onLevel level = t.onLevel level := by
  cases hn : t.name <;> simp [onLevel, bare, hn]

namespace Profile

variable {P : Profile} {b : Buffer}

/-- The level of a line, given the tokens before it, each with the level of its line. -/
def levelIn (P : Profile) (seen line later : List Token) : Nat :=
  (P.hangsOn seen line later).1.elim 0 Token.start + (P.hangsOn seen line later).2

/-- The levels of lines, given by their tokens, after the tokens `seen`. -/
def levels (P : Profile) (seen : List Token) : List (List Token) → List Nat
  | [] => []
  | line :: later =>
    let level := P.levelIn seen line later.flatten
    level :: P.levels ((line.map (Token.onLevel level)).reverse ++ seen) later

/-- The lines indented by the levels. -/
def indentBy (P : Profile) (levels : List Nat) (lines : List Text) : List Text :=
  List.zipWith P.indentLine levels lines

/-- The token with the level of its line, looked up by the start of the line. -/
def lookUp (b : Buffer) (found : List (Nat × Nat)) (t : Token) : Token :=
  t.onLevel ((found.lookup (b.text.lineStart t.start)).getD 0)

theorem lookUp_relabels (b : Buffer) (found : List (Nat × Nat)) : Relabels (lookUp b found) where
  kind _ := rfl
  name t := by
    cases hn : t.name <;> simp [lookUp, Token.onLevel, Token.bare, Token.nameText, hn]
  asElse _ := rfl

/-- How far the lines of a text are indented: those of `before` are, with their tokens `pre` and the
    levels `found`, and those of `t` are still to do. -/
structure Indented (P : Profile) (b : Buffer) (before t : Text) (found : List (Nat × Nat))
    (pre : List Token) : Prop where
  text : b.text = before ++ t
  ends : t ≠ [] → before.EndsLine
  tokens : P.dialect.tokenize b.text = pre ++ P.dialect.tokenizeFrom before.size t
  laid : Token.Laid 0 before.size pre
  starts : ∀ k ∈ found, k.1 < before.size

namespace Indented

variable {before line rest : Text} {found : List (Nat × Nat)} {pre : List Token}

/-- Lines still to do have no level yet. -/
theorem lookup_eq_none (h : P.Indented b before (line ++ rest) found pre) {q : Nat} (hq : before.size ≤ q) :
    found.lookup q = none := by
  refine List.lookup_eq_none_iff.2 fun k hk => ?_
  have := h.starts k hk
  exact bne_iff_ne.2 (by omega)

/-- Looked up before their lines are done, tokens are bare. -/
theorem lookUp_eq_bare (h : P.Indented b before (line ++ rest) found pre) (hne : line ≠ [])
    {x : Token} (h1 : before.size ≤ x.start) (h2 : x.start < b.size) : lookUp b found x = x.bare := by
  have hle : before.size ≤ b.text.lineStart x.start := by
    rw [h.text]
    refine Text.le_lineStart (h.ends (by simp [hne])) h1 ?_
    rwa [← h.text, ← b.size_eq]
  rw [lookUp, h.lookup_eq_none hle]
  rfl

/-- The tokens of the line to do next. -/
theorem line_laid (P : Profile) (p : Nat) (hline : Text.IsLine line rest) :
    Token.Laid p (p + line.size) (P.dialect.tokensOf (place p (P.dialect.pieces none line).1)) := by
  have := P.dialect.tokensOf_laid p none line
  rwa [Piece.totalSize, P.dialect.pieces_text, hline.firstLine_eq] at this

theorem later_laid (h : P.Indented b before (line ++ rest) found pre) :
    Token.Laid (before.size + line.size) b.size
      (P.dialect.tokenizeFrom (before.size + line.size) rest) := by
  have hsize : before.size + line.size + rest.size = b.size := by
    rw [b.size_eq, h.text, Text.size_append, Text.size_append, Nat.add_assoc]
  have := P.dialect.tokenizeFrom_laid (before.size + line.size) rest
  rwa [hsize] at this

/-- All of the line to do next starts where it starts. -/
theorem lineStart_eq (h : P.Indented b before (line ++ rest) found pre) (hline : Text.IsLine line rest)
    {q : Nat} (h1 : before.size ≤ q) (h2 : q < before.size + line.size) :
    b.text.lineStart q = before.size := by
  have hne : line ++ rest ≠ [] := by
    rintro heq
    rw [(List.append_eq_nil_iff.1 heq).1, Text.size_nil] at h2
    omega
  rw [Text.lineStart, h.text, Text.lineAt_append (h.ends hne) h1 (by rwa [hline.firstLine])]
  rw [Text.size_append, Text.size_append]
  omega

/-- The line done, the next one is to do. -/
theorem next (h : P.Indented b before (line ++ rest) found pre) (hm : '\n' ∉ P.dialect.marker)
    (hline : Text.IsLine line rest) (hne : line ≠ []) (level : Nat) :
    P.Indented b (before ++ line) rest ((before.size, level) :: found)
      (pre ++ P.dialect.tokensOf (place before.size (P.dialect.pieces none line).1)) where
  text := by rw [h.text, List.append_assoc]
  ends hrest := by
    refine .inr ?_
    rw [List.getLast?_append, hline.getLast? hrest, Option.some_or]
  tokens := by
    rw [h.tokens, Dialect.tokenizeFrom_line hm hline hne, List.append_assoc, Text.size_append]
  laid := by
    rw [Text.size_append]
    exact h.laid.append (line_laid P before.size hline)
  starts k hk := by
    have hpos := Text.size_pos hne
    rw [Text.size_append]
    rcases List.mem_cons.1 hk with rfl | hk
    · show before.size < _
      omega
    · have := h.starts k hk
      omega

/-- The tokens met so far, each with the level of its line, once one more line is done. -/
theorem seen_next (h : P.Indented b before (line ++ rest) found pre) (hline : Text.IsLine line rest)
    (level : Nat) :
    (pre ++ P.dialect.tokensOf (place before.size (P.dialect.pieces none line).1)).reverse.map
        (lookUp b ((before.size, level) :: found)) =
      ((P.dialect.skeleton line).map (Token.onLevel level)).reverse ++ pre.reverse.map (lookUp b found) := by
  have hin : ∀ x ∈ P.dialect.tokensOf (place before.size (P.dialect.pieces none line).1),
      lookUp b ((before.size, level) :: found) x = x.onLevel level := by
    intro x hx
    have hbounds := (line_laid P before.size hline).bounds hx
    have hstart := h.lineStart_eq hline hbounds.1 (by omega)
    rw [lookUp, hstart, List.lookup_cons_self]
    rfl
  have hbefore : ∀ x ∈ pre, lookUp b ((before.size, level) :: found) x = lookUp b found x := by
    intro x hx
    have hbounds := h.laid.bounds hx
    have hle := b.text.lineAt_start_le x.start
    have hbeq : (b.text.lineStart x.start == before.size) = false := by
      rw [beq_eq_false_iff_ne, Text.lineStart]
      omega
    rw [lookUp, lookUp, List.lookup_cons, hbeq]
  have hskeleton : (P.dialect.skeleton line).map (Token.onLevel level) =
      (P.dialect.tokensOf (place before.size (P.dialect.pieces none line).1)).map (Token.onLevel level) := by
    rw [← Dialect.map_bare_tokensOf before.size line, List.map_map]
    exact List.map_congr_left fun x _ => Token.onLevel_bare level x
  rw [hskeleton, List.map_reverse, List.map_append, List.map_congr_left hin, List.map_congr_left hbefore,
    List.reverse_append, ← List.map_reverse (l := pre)]

/-- **The level of the line to do next** is the one its tokens and those met so far give. -/
theorem level_eq (h : P.Indented b before (line ++ rest) found pre) (hm : '\n' ∉ P.dialect.marker)
    (hline : Text.IsLine line rest) (hne : line ≠ [])
    (hn : (P.findIndentation b before.size).2.exhausted = false) :
    ((P.indentation b before.size).anchor.bind (found.lookup ·)).getD 0 +
        (P.indentation b before.size).delta =
      P.levelIn (pre.reverse.map (lookUp b found)) (P.dialect.skeleton line)
        (rest.lines.map P.dialect.skeleton).flatten := by
  have hpos := Text.size_pos hne
  have hlaid := line_laid P before.size hline
  have hlater := h.later_laid
  have htokens := h.tokens
  rw [Dialect.tokenizeFrom_line hm hline hne] at htokens
  generalize hts : P.dialect.tokensOf (place before.size (P.dialect.pieces none line).1) = ts at hlaid htokens
  generalize hrs : P.dialect.tokenizeFrom (before.size + line.size) rest = later at hlater htokens
  have hafter := hlaid.append hlater
  have hgap : P.dialect.Gap b.text before.size pre.reverse (ts ++ later) := .of_laid htokens h.laid hafter
  have hcut : P.dialect.Cut b.text before.size pre.reverse (ts ++ later) := .of_laid htokens h.laid hafter
  obtain ⟨hon, hpast⟩ := hline.lineEnd (a := before)
  rw [← h.text] at hon hpast
  have hline' : ∀ x ∈ ts, x.start ≤ b.text.lineEnd before.size := by
    intro x hx
    have := hlaid.bounds hx
    exact hon x.start (by omega)
  have hlater' : ∀ x ∈ later, b.text.lineEnd before.size < x.start := by
    intro x hx
    have hrest : rest ≠ [] := by
      rintro rfl
      rw [← hrs, Dialect.tokenizeFrom] at hx
      cases hx
    have := hlater.bounds hx
    have := hpast hrest
    omega
  have hbare : ∀ x ∈ ts ++ later, lookUp b found x = x.bare := by
    intro x hx
    have hmem : x ∈ P.dialect.tokenize b.text := by rw [htokens]; exact List.mem_append_right _ hx
    exact h.lookUp_eq_bare hne (hafter.bounds hx).1 (P.dialect.start_lt_size hmem)
  -- neither the line nor what follows it has levels yet, so what is looked up are skeletons
  have hts' : ts.map (lookUp b found) = P.dialect.skeleton line := by
    rw [List.map_congr_left fun x hx => hbare x (List.mem_append_left _ hx), ← hts,
      Dialect.map_bare_tokensOf]
  have hrs' : later.map (lookUp b found) = (rest.lines.map P.dialect.skeleton).flatten := by
    rw [List.map_congr_left fun x hx => hbare x (List.mem_append_right _ hx), ← hrs,
      Dialect.map_bare_tokenizeFrom hm]
  have hstart := h.lineStart_eq hline (Nat.le_refl _) (by omega)
  rw [indentation_eq hstart hgap hcut hline' hlater' hn, levelIn, ← hts', ← hrs',
    hangsOn_map (lookUp_relabels b found)]
  cases (P.hangsOn pre.reverse ts later).1 with
  | none => rfl
  | some o => rfl

end Indented

/-- **Lines are indented by their levels**, as long as no search runs out of its budget. -/
theorem indentLines_eq (hm : '\n' ∉ P.dialect.marker)
    (hn : ∀ p < b.size, (P.findIndentation b p).2.exhausted = false) {before t : Text}
    {found : List (Nat × Nat)} {pre : List Token} (h : P.Indented b before t found pre) :
    P.indentLines b found before.size t.lines =
      (P.indentBy (P.levels (pre.reverse.map (lookUp b found)) (t.lines.map P.dialect.skeleton))
        t.lines).flatten := by
  induction t using Text.line_induction generalizing before found pre with
  | nil => rfl
  | line line rest hne hline hlines ih =>
    have hpos := Text.size_pos hne
    have hin : before.size < b.size := by
      rw [b.size_eq, h.text, Text.size_append, Text.size_append]
      omega
    have hlevel := h.level_eq hm hline hne (hn _ hin)
    rw [hlines, indentLines, hlevel, List.map_cons, levels, indentBy, List.zipWith_cons_cons,
      List.flatten_cons]
    have hrest := fun level => ih (h.next hm hline hne level)
    simp only [h.seen_next hline, Text.size_append] at hrest
    rw [hrest]
    rfl

end Profile

end BlockScript
