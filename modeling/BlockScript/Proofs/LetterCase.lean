/-
  Letter case decides nothing where keywords ignore it.

  `LoweredText` shows that lowering the letters of a text lowers its tokens and changes nothing else.  Here
  the same is said of everything that walks over tokens: whatever a walk does in a buffer it does in the
  lowered buffer, step for step, with the tokens lowered.

  1. A scanner that has a lowered line at hand finds the lowered token, at the same cost (`next_lower`,
     `prev_lower`).
  2. Whether a closer belongs to an opener and whether two names differ is the same for lowered tokens
     (`accepts_lower`, `namesDiffer_lower`).
  3. So the lowered buffer mirrors the buffer (`lowered`), and each search finds the lowered token.

  Two texts that are the same up to case have the same lowering, so their answers have the same lowering,
  and lowering keeps all of a token but the spelling of its name (`outline_lower`).  The main result is
  `letter_case_decides_nothing`.
-/
import BlockScript.Nesting.Names
import BlockScript.Proofs.IndentLevels
import BlockScript.Proofs.LexerTurns
import BlockScript.Proofs.LoweredText
import BlockScript.Proofs.NamePairs
import BlockScript.Proofs.SearchSteps

namespace BlockScript

/-! ## Scanners over a lowered buffer -/

/-- The line with the names of its tokens in lower case. -/
def TokenLine.lower (l : TokenLine) : TokenLine := { l with tokens := l.tokens.map Token.lower }

/-- The buffer with its letters in lower case. -/
def Buffer.lower (b : Buffer) : Buffer := ⟨b.text.lower, b.size, by rw [b.size_eq, Text.size_lower]⟩

theorem Buffer.lower_ofText (t : Text) : (ofText t).lower = ofText t.lower := by
  simp only [lower, ofText, Text.size_lower]

theorem Dialect.lineAt_lower {d : Dialect} (hcase : d.ignoreCase) (hm : ∀ c ∈ d.marker, ¬c.isAlpha)
    (b : Buffer) (p : Nat) : d.lineAt b.lower p = (d.lineAt b p).lower := by
  have hpieces := pieces_lower hm none (b.text.lineAt p).2
  rw [Option.map_none] at hpieces
  simp only [lineAt, Buffer.lower, Text.lineAt_lower, hpieces, place_lower, tokensOf_lower hcase,
    Piece.totalSize_lower, TokenLine.lower]

namespace Scanner

/-- The scanner with the line at hand lowered. -/
def lower (s : Scanner) : Scanner := { s with line := s.line.map TokenLine.lower }

theorem lower_visit (s : Scanner) : s.lower.visit = s.visit.lower := rfl

theorem exhausted_lower (s : Scanner) : s.lower.exhausted = s.exhausted := rfl

theorem find?_lower {f : Token → Bool} (hf : ∀ x, f x.lower = f x) (ts : List Token) :
    (ts.map Token.lower).find? f = (ts.find? f).map Token.lower := by
  rw [List.find?_map]
  exact congrArg (fun g => (ts.find? g).map Token.lower) (funext hf)

variable {d : Dialect} (hcase : d.ignoreCase) (hm : ∀ c ∈ d.marker, ¬c.isAlpha)

include hcase hm

theorem lineAt_lower (s : Scanner) (b : Buffer) (p : Nat) :
    s.lower.lineAt d b.lower p = ((s.lineAt d b p).1.lower, (s.lineAt d b p).2.lower) := by
  unfold lineAt lineAt.fresh
  rw [Dialect.lineAt_lower hcase hm]
  cases hline : s.line with
  | none =>
    simp only [lower, hline, Option.map_none]
    rfl
  | some l =>
    have hlower : s.lower.line = some l.lower := by rw [lower, hline, Option.map_some]
    simp only [hlower]
    by_cases hin : l.start ≤ p ∧ p < l.stop
    · rw [if_pos hin]
      exact if_pos hin
    · rw [if_neg hin]
      exact if_neg hin

/-- **A scanner over a lowered buffer finds the lowered token ahead.** -/
theorem next_lower (s : Scanner) (b : Buffer) (p : Nat) :
    s.lower.next d b.lower p = ((s.next d b p).1.lower, (s.next d b p).2.lower) := by
  refine (nextSearch d b).run_map (nextSearch d b.lower).run_eq (f := Prod.map lower id)
    (g := Prod.map Token.lower lower) (fun s => ?_) (s, p)
  have hfind := find?_lower (f := (s.2 < ·.stop)) (fun x => rfl) (s.1.visit.lineAt d b s.2).1.tokens
  dsimp only [nextSearch, aheadTurn, Prod.map, id]
  rw [lower_visit, exhausted_lower, lineAt_lower hcase hm, TokenLine.lower, hfind, apply_ite (Sum.map _ _),
    apply_ite (Sum.map _ _)]
  cases (s.1.visit.lineAt d b s.2).1.tokens.find? (s.2 < ·.stop) <;> rfl

/-- **A scanner over a lowered buffer finds the lowered token behind.** -/
theorem prev_lower (s : Scanner) (b : Buffer) (p : Nat) :
    s.lower.prev d b.lower p = ((s.prev d b p).1.lower, (s.prev d b p).2.lower) := by
  refine (prevSearch d b).run_map (prevSearch d b.lower).run_eq (f := Prod.map lower id)
    (g := Prod.map Token.lower lower) (fun s => ?_) (s, min p b.size)
  have hfind := find?_lower (f := (·.start < s.2)) (fun x => rfl)
    (s.1.visit.lineAt d b (s.2 - 1)).1.tokens.reverse
  dsimp only [prevSearch, behindTurn, Prod.map, id]
  rw [lower_visit, exhausted_lower, lineAt_lower hcase hm, TokenLine.lower, ← List.map_reverse, hfind,
    apply_ite (Sum.map _ _), apply_ite (Sum.map _ _)]
  cases (s.1.visit.lineAt d b (s.2 - 1)).1.tokens.reverse.find? (·.start < s.2) <;> rfl

end Scanner

/-! ## Searches over a lowered buffer -/

/-- The pair with the names of its tokens in lower case. -/
def Pair.lower (found : Pair) : Pair := ⟨found.opener.lower, found.closer.lower⟩

namespace Profile

variable {P : Profile} {b : Buffer} (hcase : P.dialect.ignoreCase)

section Judgements

include hcase

theorem endFamily_lower (word : Text) : P.endFamily word.lower = P.endFamily word := by
  rw [endFamily, endFamily, Dialect.isKeyword_lower hcase, Dialect.isKeyword_lower hcase]

/-- **A closer belongs to an opener whatever their case.** -/
theorem accepts_lower (o x : Token) : P.accepts o.lower x.lower = P.accepts o x := by
  rw [accepts, accepts, Token.nameText_lower, endFamily_lower hcase]
  rfl

/-- **Two names differ whatever their case.** -/
theorem namesDiffer_lower (o x : Token) : P.namesDiffer o.lower x.lower = P.namesDiffer o x := by
  obtain ⟨ko, so, eo, _ | n⟩ := o
  · rfl
  · obtain ⟨kx, sx, ex, _ | n'⟩ := x
    · rfl
    · rw [namesDiffer, namesDiffer]
      exact congrArg (_ && !·) (Dialect.spells_lower hcase n.text n'.text)

end Judgements

variable (hm : ∀ c ∈ P.dialect.marker, ¬c.isAlpha)

/-- **A lowered buffer mirrors the buffer**, so all searches agree. -/
def lowered (b : Buffer) : Mirror P b b.lower where
  token := Token.lower
  scanner := Scanner.lower
  Sound _ := True
  Own _ := True
  Behind _ := True
  Ahead _ := True
  kind_eq _ := rfl
  start_eq _ := rfl
  stop_eq _ := rfl
  asElse_eq _ := rfl
  accepts_eq := accepts_lower hcase
  namesDiffer_eq := namesDiffer_lower hcase
  prev_eq _ _ := Scanner.prev_lower hcase hm ..
  next_eq _ _ := Scanner.next_lower hcase hm ..
  prev_sound _ _ := trivial
  next_sound _ _ := trivial
  prev_own _ _ := trivial
  next_own _ _ := trivial
  behind_start _ := trivial
  ahead_else _ _ := trivial

include hcase hm

/-! ## The answers -/

/-- **The match in a lowered buffer is the lowered match.** -/
theorem findMatch_lower (p : Nat) :
    P.findMatch b.lower p = (P.findMatch b p).map Pair.lower := by
  have hnext := Scanner.next_lower hcase hm P.scanner b p
  rw [show P.scanner.lower = P.scanner from rfl] at hnext
  obtain ⟨role, hrole⟩ : ∃ role, (P.scanner.next P.dialect b p).1.kind.role = role := ⟨_, rfl⟩
  have hrole' : (P.scanner.next P.dialect b.lower p).1.kind.role = role := by
    rw [hnext]
    exact hrole
  rw [findMatch_of_role hrole, findMatch_of_role hrole', hnext]
  generalize P.scanner.next P.dialect b p = r
  have hcont : P.continuesIf b.lower r.2.lower r.1.lower =
      ((P.continuesIf b r.2 r.1).1, (P.continuesIf b r.2 r.1).2.lower) :=
    ((lowered hcase hm b).continuesIf trivial trivial).1
  dsimp only
  rw [hcont]
  generalize P.continuesIf b r.2 r.1 = q
  dsimp only
  have hopener (s : Scanner) (x y : Token) :
      (P.openerOf b.lower s.lower x.lower).1.map (Pair.mk · y.lower) =
        ((P.openerOf b s x).1.map (Pair.mk · y)).map Pair.lower := by
    have h : P.openerOf b.lower s.lower x.lower =
        Prod.map (Option.map Token.lower) Scanner.lower (P.openerOf b s x) :=
      ((lowered hcase hm b).openerOf trivial trivial).1
    rw [h, Prod.map_fst, Option.map_map, Option.map_map]
    rfl
  by_cases hc : q.1
  · rw [if_pos hc, if_pos hc]
    exact hopener q.2 r.1.asElse r.1
  · rw [if_neg hc, if_neg hc]
    have hflat : (if r.1.lower.kind = .elseBlock then P.isFlatElse b.lower q.2.lower r.1.lower
          else (false, q.2.lower)) =
        let f := if r.1.kind = .elseBlock then P.isFlatElse b q.2 r.1 else (false, q.2)
        (f.1, f.2.lower) := by
      by_cases hk : r.1.kind = .elseBlock
      · rw [if_pos hk]
        exact (if_pos hk).trans ((lowered hcase hm b).isFlatElse trivial trivial).1
      · rw [if_neg hk]
        exact if_neg hk
    cases role with
    | neutral => rfl
    | opener =>
      have hcloser : P.closerOf b.lower q.2.lower r.1.lower =
          Prod.map (Option.map Token.lower) Scanner.lower (P.closerOf b q.2 r.1) :=
        (lowered hcase hm b).closerAfter (fun _ => trivial) trivial [r.1] r.1.stop
      dsimp only
      rw [hcloser, Prod.map_fst, Option.map_map, Option.map_map]
      rfl
    | inner | closer =>
      dsimp only
      rw [hflat]
      generalize (if r.1.kind = .elseBlock then P.isFlatElse b q.2 r.1 else (false, q.2)) = f
      dsimp only
      split
      · rfl
      · exact hopener f.2 r.1 r.1

theorem context_lower (p : Nat) : P.context b.lower p = P.context b p := by
  have h := (lowered hcase hm b).allUnclosedBefore (s := P.scanner) (p := min p b.size) trivial trivial {} []
  rw [context, context]
  refine (congrArg (List.map Token.construct) h).trans ?_
  rw [List.map_map]
  rfl

/-- **The indentation of a lowered line is that of the line.** -/
theorem indentation_lower (p : Nat) : P.indentation b.lower p = P.indentation b p := by
  have hstart (p : Nat) : b.lower.text.lineStart p = b.text.lineStart p := Text.lineStart_lower b.text p
  have hend (p : Nat) : b.lower.text.lineEnd p = b.text.lineEnd p := Text.lineEnd_lower b.text p
  have halign (p : Nat) : P.alignment b.lower p =
      ((P.alignment b p).1.map Token.lower, (P.alignment b p).2.lower) := by
    have hnext := Scanner.next_lower hcase hm P.scanner b p
    rw [show P.scanner.lower = P.scanner from rfl] at hnext
    rw [alignment, alignment, hnext, hend]
    generalize P.scanner.next P.dialect b p = r
    dsimp only
    by_cases hr : (r.1.kind ≠ .edge && r.1.start ≤ b.text.lineEnd p) = true
    · rw [if_pos hr]
      exact (if_pos hr).trans ((lowered hcase hm b).alignedWith trivial trivial).1
    · rw [if_neg hr]
      exact if_neg hr
  rw [indentation, indentation, findIndentation_eq, findIndentation_eq, hstart]
  dsimp only
  rw [halign]
  generalize P.alignment b (b.text.lineStart p) = q
  obtain ⟨_ | o, s⟩ := q
  · have hunclosed : P.unclosedBefore b.lower s.lower {} (b.text.lineStart p) =
        Prod.map (Option.map Token.lower) (Prod.map (lowered hcase hm b).walk Scanner.lower)
          (P.unclosedBefore b s {} (b.text.lineStart p)) :=
      ((lowered hcase hm b).unclosedBefore trivial trivial {}).1
    dsimp only [Option.map_none]
    rw [hunclosed]
    generalize P.unclosedBefore b s {} (b.text.lineStart p) = u
    simp only [Prod.map, Option.map_map, Option.isSome_map]
    exact congrArg (fun f => Indentation.mk (u.1.map f) _) (funext fun o => hstart o.start)
  · exact congrArg (fun start => Indentation.mk (some start) 0) (hstart o.start)

omit hm in
theorem mismatchesFrom_lower (previous : Option Token) (pending ts : List Token) :
    P.mismatchesFrom (previous.elim .edge Token.kind) (pending.map Token.lower) (ts.map Token.lower) =
      (P.mismatchesFrom (previous.elim .edge Token.kind) pending ts).map Pair.lower := by
  induction ts generalizing previous pending with
  | nil => rfl
  | cons x ts ih =>
    have hrole : x.lower.roleAfter previous = x.roleAfter previous := rfl
    have hrest (pending : List Token) :
        P.mismatchesFrom x.lower.kind (pending.map Token.lower) (ts.map Token.lower) =
        (P.mismatchesFrom x.kind pending ts).map Pair.lower := ih (some x) pending
    rw [List.map_cons, mismatchesFrom_cons, mismatchesFrom_cons, hrole]
    cases x.roleAfter previous with
    | opener => exact hrest (x :: pending)
    | inner | neutral => exact hrest pending
    | closer =>
      have hpop : popFirst (P.accepts · x.lower) (pending.map Token.lower) =
          (popFirst (P.accepts · x) pending).map fun r => (r.1.lower, r.2.map Token.lower) := by
        rw [popFirst_map]
        simp only [accepts_lower hcase]
      dsimp only
      rw [hpop]
      rcases popFirst (P.accepts · x) pending with _ | ⟨o, rest⟩
      · exact hrest pending
      · have hdiffers : P.differs ⟨o.lower, x.lower⟩ = P.differs ⟨o, x⟩ := namesDiffer_lower hcase o x
        rw [Option.map_some]
        dsimp only [Prod.map]
        rw [List.map_append, hrest rest]
        by_cases hd : P.differs ⟨o, x⟩
        · rw [List.filter_cons_of_pos hd, List.filter_cons_of_pos (hdiffers.trans hd)]
          rfl
        · rw [List.filter_cons_of_neg hd, List.filter_cons_of_neg (by rwa [hdiffers])]
          rfl

/-- **The mismatches of a lowered text are the lowered mismatches.** -/
theorem nameMismatches_lower (t : Text) : P.nameMismatches t.lower = (P.nameMismatches t).map Pair.lower := by
  have htokens : P.tokenize t.lower = (P.tokenize t).map Token.lower := Dialect.tokenize_lower hcase hm t
  rw [nameMismatches, nameMismatches, htokens]
  exact mismatchesFrom_lower hcase none [] (P.tokenize t)

end Profile

/-! ## Two texts -/

/-- A token but for the spelling of its name: its kind, where it starts and stops, and where its name
    does. -/
def Token.outline (x : Token) : TokenKind × Nat × Nat × Option (Nat × Nat) :=
  (x.kind, x.start, x.stop, x.name.map fun n => (n.start, n.stop))

/-- A pair but for the spelling of names. -/
def Pair.outline (found : Pair) : (TokenKind × Nat × Nat × Option (Nat × Nat)) ×
    TokenKind × Nat × Nat × Option (Nat × Nat) :=
  (found.opener.outline, found.closer.outline)

theorem Token.outline_lower (x : Token) : x.lower.outline = x.outline := by
  obtain ⟨kind, start, stop, _ | n⟩ := x
  · rfl
  · have hstop : n.lower.stop = n.stop := by rw [Name.stop, Name.stop, Name.lower, Text.size_lower]
    exact congrArg (fun e => (kind, start, stop, some (n.start, e))) hstop

theorem Pair.outline_lower (found : Pair) : found.lower.outline = found.outline := by
  rw [outline, outline, lower, Token.outline_lower, Token.outline_lower]

namespace Profile

/-- **Letter case decides nothing** where keywords ignore it and the marker has no letters, whatever the
    layout.  Two texts that differ only in the case of ASCII letters have the same tokens, the same matches,
    open constructs and indentation at every offset, and the same pairs with differing names; only their
    names are spelled otherwise. -/
theorem letter_case_decides_nothing (P : Profile) (hcase : P.dialect.ignoreCase)
    (hbreak : '\n' ∉ P.dialect.marker) (hletters : ∀ c ∈ P.dialect.marker, ¬c.isAlpha) {t t' : Text} (h : Dialect.sameLetters t t') :
    P.dialect.tokenize? t = some (P.tokenize t) ∧ P.dialect.tokenize? t' = some (P.tokenize t') ∧
      (P.tokenize t).map Token.outline = (P.tokenize t').map Token.outline ∧
      (∀ p, (P.findMatch (.ofText t) p).map Pair.outline = (P.findMatch (.ofText t') p).map Pair.outline ∧
        P.context (.ofText t) p = P.context (.ofText t') p ∧
        P.indentation (.ofText t) p = P.indentation (.ofText t') p) ∧
      (P.nameMismatches t).map Pair.outline = (P.nameMismatches t').map Pair.outline := by
  have hlower : t.lower = t'.lower := (Dialect.sameLetters_iff t t').1 h
  have hhead : P.dialect.marker.head? ≠ some '\n' := fun hh => hbreak (List.mem_of_head? hh)
  -- each answer is compared with the one for the lowering that both texts share
  have htokens (t : Text) : (P.tokenize t).map Token.outline = (P.tokenize t.lower).map Token.outline := by
    have h := Dialect.tokenize_lower hcase hletters t
    rw [tokenize, tokenize, h, List.map_map]
    exact List.map_congr_left fun x _ => x.outline_lower.symm
  have hbuffer (t : Text) : Buffer.ofText t.lower = (Buffer.ofText t).lower := (Buffer.lower_ofText t).symm
  have hmatch (t : Text) (p : Nat) :
      (P.findMatch (.ofText t) p).map Pair.outline = (P.findMatch (.ofText t.lower) p).map Pair.outline := by
    rw [hbuffer, findMatch_lower hcase hletters, Option.map_map]
    exact Option.map_congr fun found _ => found.outline_lower.symm
  have hcontext (t : Text) (p : Nat) : P.context (.ofText t) p = P.context (.ofText t.lower) p := by
    rw [hbuffer, context_lower hcase hletters]
  have hindentation (t : Text) (p : Nat) : P.indentation (.ofText t) p = P.indentation (.ofText t.lower) p := by
    rw [hbuffer, indentation_lower hcase hletters]
  have hmismatches (t : Text) :
      (P.nameMismatches t).map Pair.outline = (P.nameMismatches t.lower).map Pair.outline := by
    rw [nameMismatches_lower hcase hletters, List.map_map]
    exact List.map_congr_left fun found _ => found.outline_lower.symm
  refine ⟨Dialect.tokenize?_eq hhead t, Dialect.tokenize?_eq hhead t', ?_, fun p => ⟨?_, ?_, ?_⟩, ?_⟩
  · rw [htokens t, htokens t', hlower]
  · rw [hmatch t, hmatch t', hlower]
  · rw [hcontext t, hcontext t', hlower]
  · rw [hindentation t, hindentation t', hlower]
  · rw [hmismatches t, hmismatches t', hlower]

/-- Two spellings of a block that ends with another name. -/
theorem letter_case_decides_nothing_mixed :
    let P : Profile := {}
    let t := "Begin Box\nIF x THEN\nend If\nEND bex".toList
    let t' := "BEGIN bOX\nif X then\nEnd iF\nend Bex".toList
    Dialect.sameLetters t t' ∧
      (P.tokenize t').map Token.outline = [(.beginBlock, 0, 9, some (6, 9)), (.separator, 9, 10, none),
        (.ifBlock, 10, 12, none), (.expr, 13, 14, none), (.thenWord, 15, 19, none), (.separator, 19, 20, none),
        (.endThing, 20, 26, some (24, 26)), (.separator, 26, 27, none), (.endThing, 27, 34, some (31, 34))] ∧
      (P.tokenize t).map Token.outline = (P.tokenize t').map Token.outline ∧
      ∀ p, P.indentation (.ofText t) p = P.indentation (.ofText t') p := by
  intro P t t'
  have hsame : Dialect.sameLetters t t' := by decide +kernel
  have h := letter_case_decides_nothing P rfl (by decide) (by simp [P]) hsame
  exact ⟨hsame, by decide +kernel, h.2.2.1, fun p => (h.2.2.2.1 p).2.2⟩

end Profile

end BlockScript
