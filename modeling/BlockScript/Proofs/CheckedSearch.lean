/-
  Searching with cuts that can fail.

  The scanner and the searches over it, with the cuts of `CheckedLexing`.  Offsets enter here from outside,
  past the end and inside characters included.

  1. The start of a line is asked for at any offset.  The offset is taken back to the end of the text and to
     the start of a character first (`boundaryBefore`), so the text before it can be cut off (`lineStart?_eq`).
  2. A line starts at a character, so the line read there is the line that the scanner reads (`lineAt?_eq`),
     and a scanner in any state has its answer (`next?_eq`, `prev?_eq`).
  3. What a search cuts out is the names of tokens it has met.  A token of the text stands where it says
     (`readable_of_mem`), and a search keeps only such tokens (`back_keeps`), so each has its answer, and the
     tokens it gives are such tokens again (`unclosedBefore?_eq`, `openerBefore?_eq`, `closerAfter?_eq`).
-/
import BlockScript.Proofs.CheckedLexing
import BlockScript.Proofs.SearchSteps
import Mathlib.Data.List.DropRight

namespace BlockScript

/-! ## Loops and searches -/

/-- A loop as a search: a step that fails ends it. -/
theorem Step.loop_eq_elim {σ β : Type} (step : Step σ β) (s : σ) :
    step.loop s = ((step s).elim (.inr none) (Sum.map id some)).elim step.loop id := by
  cases h : step s with
  | none => exact loop_none h
  | some r =>
    cases r with
    | inl t => exact loop_inl h
    | inr r => exact loop_inr h

namespace Search

variable {σ β : Type} (F : Search σ β) {step : Step σ β}

/-- **A loop whose steps are those of a search gives what the search gives.**  Its steps need to be so for
    states with `I` only if they keep it; answers then have `J`. -/
theorem loop_eq_of {I : σ → Prop} {J : β → Prop}
    (hstep : ∀ s, I s → step s = some (F.step s) ∧ (F.step s).elim I J) {s : σ} (hs : I s) :
    step.loop s = some (F.run s) ∧ J (F.run s) := by
  refine F.run_map_of step.loop_eq_elim (f := id) (g := some) (fun s hs => ?_) hs
  obtain ⟨heq, hkeeps⟩ := hstep s hs
  rw [id, heq]
  exact ⟨rfl, hkeeps⟩

theorem loop_eq (hstep : ∀ s, step s = some (F.step s)) (s : σ) : step.loop s = some (F.run s) := by
  refine F.run_map step.loop_eq_elim (f := id) (g := some) (fun s => ?_) s
  rw [id, hstep]
  rfl

end Search

/-! ## Starts of lines -/

namespace Text

/-- The last place at or before offset `p` where a character starts or the text ends. -/
def boundaryBefore (t : Text) : Nat → Nat
  | 0 => 0
  | p + 1 => if t.isBoundary (p + 1) then p + 1 else t.boundaryBefore p

/-- The start of the line that holds offset `p`: behind the last line break before it. -/
def lineStart? (t : Text) (p : Nat) : Option Nat :=
  (t.front? (t.boundaryBefore (min p t.size))).map fun front => size (front.trimEnd (· ≠ '\n'))

/-- An offset of the text lies at a character, or inside the one at the place before it. -/
theorem exists_boundaryBefore (t : Text) {p : Nat} (hp : p ≤ t.size) :
    ∃ front rest : Text, t = front ++ rest ∧ front.size = t.boundaryBefore p ∧ front.size ≤ p ∧
      ∀ c ∈ rest.head?, p < front.size + c.utf8Size := by
  induction p with
  | zero => exact ⟨[], t, rfl, rfl, Nat.le_refl _, fun c _ => by simpa using c.utf8Size_pos⟩
  | succ p ih =>
    rw [boundaryBefore]
    by_cases hb : t.isBoundary (p + 1)
    · rw [if_pos hb]
      obtain ⟨⟨front, rest⟩, hs⟩ := Option.isSome_iff_exists.1 hb
      obtain ⟨rfl, hsize⟩ := splitAt?_append hs
      refine ⟨front, rest, rfl, hsize, Nat.le_of_eq hsize, fun c _ => ?_⟩
      have := c.utf8Size_pos
      omega
    · rw [if_neg hb]
      obtain ⟨front, rest, rfl, hsize, hle, hlt⟩ := ih (Nat.le_of_succ_le hp)
      refine ⟨front, rest, rfl, hsize, Nat.le_succ_of_le hle, fun c hc => ?_⟩
      -- the character before does not end at this offset, which would be a boundary then
      have hne : p + 1 ≠ front.size + c.utf8Size := by
        intro heq
        obtain ⟨rest, rfl⟩ : ∃ cs, rest = c :: cs := List.head?_eq_some_iff.1 hc
        have hcut := splitAt?_size_append (front ++ [c]) rest
        rw [List.append_assoc, size_append, size_cons, size_nil, Nat.add_zero, ← heq] at hcut
        exact hb (Option.isSome_iff_exists.2 ⟨_, hcut⟩)
      have := hlt c hc
      omega

/-- Without a line break nothing is left of a text. -/
theorem trimEnd_eq_nil {x : Text} (h : '\n' ∉ x) : trimEnd (· ≠ '\n') x = [] := by
  refine List.rdropWhile_eq_nil_iff.2 fun c hc => decide_eq_true ?_
  rintro rfl
  exact h hc

theorem trimEnd_cons (c : Char) (x : Text) :
    trimEnd (· ≠ '\n') (c :: x) =
      if '\n' ∈ x then c :: trimEnd (· ≠ '\n') x else if c = '\n' then [c] else [] := by
  by_cases hx : '\n' ∈ x
  · have hne : ¬(x.reverse.dropWhile (· ≠ '\n')).isEmpty := by
      rw [List.isEmpty_iff, List.dropWhile_eq_nil_iff]
      intro hall
      simpa using hall '\n' (List.mem_reverse.2 hx)
    rw [if_pos hx, trimEnd, List.reverse_cons, List.dropWhile_append, if_neg hne, List.reverse_append]
    rfl
  · rw [if_neg hx]
    by_cases hc : c = '\n'
    · have hnil : x.reverse.dropWhile (· ≠ '\n') = [] := by
        simpa [trimEnd] using trimEnd_eq_nil hx
      rw [if_pos hc, hc, trimEnd, List.reverse_cons, List.dropWhile_append, hnil]
      rfl
    · rw [if_neg hc]
      exact trimEnd_eq_nil (by simp [hx, Ne.symm hc])

/-- The walk for an offset that lies in the character behind `front`, if any, keeps the start of the last
    line of `front`. -/
theorem findLine_front {p : Nat} {rest : Text} (front : Text) {off : Nat} {line : Nat × Text}
    (hle : off + front.size ≤ p) (hlt : ∀ c ∈ rest.head?, p < off + front.size + c.utf8Size) :
    (findLine p off line (front ++ rest)).1 =
      if '\n' ∈ front then off + size (front.trimEnd (· ≠ '\n')) else line.1 := by
  induction front generalizing off line with
  | nil =>
    cases rest with
    | nil => rfl
    | cons c cs =>
      have := hlt c rfl
      rw [size_nil] at this
      rw [List.nil_append, findLine, if_neg (by omega)]
      rfl
  | cons c front ih =>
    rw [size_cons, ← Nat.add_assoc] at hle hlt
    rw [List.cons_append, findLine, if_pos (by omega), ih hle hlt, trimEnd_cons]
    by_cases hfront : '\n' ∈ front
    · rw [if_pos hfront, if_pos hfront, if_pos (List.mem_cons_of_mem _ hfront), size_cons, Nat.add_assoc]
    · rw [if_neg hfront, if_neg hfront]
      by_cases hc : c = '\n'
      · rw [if_pos hc, if_pos hc, if_pos (by simp [hc])]
        rfl
      · rw [if_neg hc, if_neg (by simp [hfront, Ne.symm hc])]

/-- **A line start is found for every offset.** -/
theorem lineStart?_eq (t : Text) (p : Nat) : t.lineStart? p = some (t.lineStart p) := by
  obtain ⟨front, rest, rfl, hsize, hle, hlt⟩ := t.exists_boundaryBefore (Nat.min_le_right p t.size)
  have hstart : (findLine p 0 (0, front ++ rest) (front ++ rest)).1 =
      if '\n' ∈ front then 0 + size (front.trimEnd (· ≠ '\n')) else 0 := by
    refine findLine_front front (by omega) fun c hc => ?_
    obtain ⟨cs, rfl⟩ : ∃ cs, rest = c :: cs := List.head?_eq_some_iff.1 hc
    have := hlt c hc
    rw [size_append, size_cons] at this
    omega
  rw [lineStart?, ← hsize, front?_append, Option.map_some, lineStart, lineAt, hstart]
  by_cases hfront : '\n' ∈ front
  · rw [if_pos hfront, Nat.zero_add]
  · rw [if_neg hfront, trimEnd_eq_nil hfront]
    rfl

end Text

/-! ## The scanner -/

namespace Dialect

variable {d : Dialect} {b : Buffer}

/-- The line that holds offset `p`. -/
def lineAt? (d : Dialect) (b : Buffer) (p : Nat) : Option TokenLine :=
  (b.text.lineStart? p).bind fun start =>
    (d.tokensAt? b.text start).map fun line => ⟨start, line.2, line.1⟩

theorem lineAt?_eq (hm : d.marker.head? ≠ some '\n') (b : Buffer) (p : Nat) :
    d.lineAt? b p = some (d.lineAt b p) := by
  obtain ⟨before, ht, hsize, hends⟩ := b.text.lineAt_split p
  have hsplit := Text.splitAt?_size_append before (b.text.lineAt p).2
  rw [← ht, hsize] at hsplit
  have hline : d.lexLine b.text (b.text.lineAt p).1 =
      ⟨(b.text.lineAt p).1, (d.lineAt b p).stop,
        place (b.text.lineAt p).1 (d.pieces none (b.text.lineAt p).2).1⟩ := by
    rw [lexLine, hsplit]
    dsimp only
    rw [pieces_congr_before (any_isScriptWord_of_endsLine hends)]
    rfl
  rw [lineAt?, Text.lineStart?_eq, Option.bind_some, tokensAt?_eq hm, Text.lineStart, hline]
  rfl

end Dialect

namespace Scanner

variable {d : Dialect} {b : Buffer}

/-- The line that holds offset `p`, from the line at hand if it does. -/
def lineAt? (s : Scanner) (d : Dialect) (b : Buffer) (p : Nat) : Option (TokenLine × Scanner) :=
  match s.line with
  | some l => if l.start ≤ p ∧ p < l.stop then some (l, s) else fresh
  | none => fresh
where
  /-- The line read anew, which the scanner then has at hand. -/
  fresh : Option (TokenLine × Scanner) := (d.lineAt? b p).map fun l => (l, { s with line := some l })

/-- A visit on the way ahead from offset `s.2`. -/
def nextStep? (d : Dialect) (b : Buffer) (s : Scanner × Nat) :
    Option ((Scanner × Nat) ⊕ (Token × Scanner)) :=
  if s.2 < b.size then
    if s.1.visit.exhausted then some (.inr (Token.edgeAt s.2, s.1.visit))
    else (s.1.visit.lineAt? d b s.2).map (aheadTurn s.2)
  else some (.inr (Token.edgeAt b.size, s.1))

/-- The first token that ends after offset `p`. -/
def next? (s : Scanner) (d : Dialect) (b : Buffer) (p : Nat) : Option (Token × Scanner) :=
  Step.loop (nextStep? d b) (s, p)

/-- A visit on the way back from offset `s.2`. -/
def prevStep? (d : Dialect) (b : Buffer) (s : Scanner × Nat) :
    Option ((Scanner × Nat) ⊕ (Token × Scanner)) :=
  if s.2 = 0 then some (.inr (Token.edgeAt 0, s.1))
  else if s.1.visit.exhausted then some (.inr (Token.edgeAt s.2, s.1.visit))
  else (s.1.visit.lineAt? d b (s.2 - 1)).map (behindTurn s.2)

/-- The last token that starts before offset `p`. -/
def prev? (s : Scanner) (d : Dialect) (b : Buffer) (p : Nat) : Option (Token × Scanner) :=
  Step.loop (prevStep? d b) (s, min p b.size)

theorem lineAt?_eq (hm : d.marker.head? ≠ some '\n') (b : Buffer) (s : Scanner) (p : Nat) :
    s.lineAt? d b p = some (s.lineAt d b p) := by
  have hfresh : lineAt?.fresh s d b p = some (lineAt.fresh s d b p) := by
    rw [lineAt?.fresh, Dialect.lineAt?_eq hm]
    rfl
  rw [lineAt?, lineAt, hfresh]
  cases s.line with
  | none => rfl
  | some l =>
    dsimp only
    split <;> rfl

/-- **A scanner in any state has a token ahead of every offset.** -/
theorem next?_eq (hm : d.marker.head? ≠ some '\n') (b : Buffer) (s : Scanner) (p : Nat) :
    s.next? d b p = some (s.next d b p) := by
  refine (nextSearch d b).loop_eq (fun s => ?_) (s, p)
  rw [nextStep?, lineAt?_eq hm, Option.map_some, ← apply_ite some, ← apply_ite some]
  rfl

/-- **A scanner in any state has a token behind every offset.** -/
theorem prev?_eq (hm : d.marker.head? ≠ some '\n') (b : Buffer) (s : Scanner) (p : Nat) :
    s.prev? d b p = some (s.prev d b p) := by
  refine (prevSearch d b).loop_eq (fun s => ?_) (s, min p b.size)
  rw [prevStep?, lineAt?_eq hm, Option.map_some, ← apply_ite some, ← apply_ite some]
  rfl

end Scanner

/-! ## Names -/

namespace Token

/-- The token's name, cut out of the text it stands in. -/
def nameIn? (x : Token) (t : Text) : Option (Option Text) :=
  x.name.elim (some none) fun n => (t.slice? n.start n.stop).map some

/-- Whether the name of a token, if it has one, stands in the text where the token says. -/
def Readable (t : Text) (x : Token) : Prop := ∀ n ∈ x.name, t.HasAt n.start n.text

variable {t : Text} {x : Token}

theorem Readable.nameIn? (h : x.Readable t) : x.nameIn? t = some (x.name.map Name.text) := by
  rw [Token.nameIn?]
  cases hn : x.name with
  | none => rfl
  | some n =>
    show (t.slice? n.start (n.start + n.text.size)).map some = _
    rw [(h n hn).slice?]
    rfl

theorem readable_of_mem {d : Dialect} (hx : x ∈ d.tokenize t) : x.Readable t := by
  intro n hn
  obtain ⟨q, -, ⟨-, hnone, -⟩ | ⟨o, w, hw, -, -, -, hname, -⟩⟩ := Dialect.exists_pieceAt_of_mem hx
  · rw [hnone] at hn
    cases hn
  · rw [hname] at hn
    cases hn
    exact hw.hasAt

theorem readable_asElse (x : Token) : x.asElse.Readable t := by
  intro n hn
  cases hn

end Token

/-- Takes the topmost element that satisfies `p`, and drops those above it. -/
def popFirst? (p : Token → Option Bool) : List Token → Option (Option (Token × List Token))
  | [] => some none
  | x :: xs => (p x).bind fun holds => if holds then some (some (x, xs)) else popFirst? p xs

theorem popFirst?_eq {p? : Token → Option Bool} {p : Token → Bool} {xs : List Token}
    (h : ∀ x ∈ xs, p? x = some (p x)) : popFirst? p? xs = some (popFirst p xs) := by
  induction xs with
  | nil => rfl
  | cons x xs ih =>
    rw [popFirst?, popFirst, h x (List.mem_cons_self ..), Option.bind_some]
    split
    · rfl
    · exact ih fun y hy => h y (List.mem_cons_of_mem _ hy)

namespace Profile

/-- Whether `closer` closes or continues the construct `opener` opens. -/
def accepts? (P : Profile) (t : Text) (opener closer : Token) : Option Bool :=
  if blockTable.closes closer.kind opener.kind then
    if closer.kind ≠ .endThing then some true
    else (closer.nameIn? t).map fun word => opener.kind = P.endFamily (word.getD [])
  else some false

/-- Whether a `begin`/`end` pair spells its name differently. -/
def namesDiffer? (P : Profile) (t : Text) (opener closer : Token) : Option Bool :=
  if opener.kind = .beginBlock ∧ closer.kind = .endThing then
    (opener.nameIn? t).bind fun begun =>
      (closer.nameIn? t).map fun ended =>
        !(begun.any fun word => ended.any fun word' => P.dialect.spells word word')
  else some false

/-- The search after a token in the given role, and whether that token is an unclosed opener. -/
def meet? (P : Profile) (t : Text) (w : Walk) (role : Role) (x : Token) : Option (Walk × Bool) :=
  match role with
  | .closer => some ({ w with pending := x :: w.pending }, false)
  | .opener =>
    (popFirst? (P.accepts? t x) w.pending).bind fun popped =>
      match popped with
      | none => some (w, true)
      | some (closer, rest) =>
        (P.namesDiffer? t x closer).map fun differ =>
          (⟨rest, w.mismatch <|> if differ then some (x, closer) else none⟩, false)
  | _ => some (w, false)

end Profile

/-- Whether the names of all tokens that a search keeps can be read. -/
structure Walk.Readable (t : Text) (w : Walk) : Prop where
  pending : ∀ x ∈ w.pending, x.Readable t
  mismatch : ∀ pair ∈ w.mismatch, pair.1.Readable t ∧ pair.2.Readable t

namespace Profile

variable {P : Profile} {t : Text}

theorem accepts?_eq {opener closer : Token} (h : closer.Readable t) :
    P.accepts? t opener closer = some (P.accepts opener closer) := by
  rw [accepts?, accepts]
  by_cases hcloses : blockTable.closes closer.kind opener.kind
  · rw [if_pos hcloses, hcloses, Bool.true_and]
    by_cases hk : closer.kind = .endThing
    · rw [if_neg (not_not.2 hk), h.nameIn?, decide_eq_false (not_not.2 hk), Bool.false_or]
      rfl
    · rw [if_pos hk, decide_eq_true hk, Bool.true_or]
  · rw [if_neg hcloses, Bool.eq_false_iff.2 hcloses, Bool.false_and]

theorem namesDiffer?_eq {opener closer : Token} (h : opener.Readable t) (h' : closer.Readable t) :
    P.namesDiffer? t opener closer = some (P.namesDiffer opener closer) := by
  rw [namesDiffer?, namesDiffer]
  by_cases hk : opener.kind = .beginBlock ∧ closer.kind = .endThing
  · rw [if_pos hk, h.nameIn?, h'.nameIn?, decide_eq_true hk.1, decide_eq_true hk.2]
    cases opener.name <;> cases closer.name <;> rfl
  · rw [if_neg hk, ← Bool.decide_and, decide_eq_false hk, Bool.false_and]

theorem meet?_eq {w : Walk} (hw : w.Readable t) {x : Token} (hx : x.Readable t) (role : Role) :
    P.meet? t w role x = some (P.meet w role x) := by
  cases role with
  | opener =>
    have hpop : popFirst? (P.accepts? t x) w.pending = some (popFirst (P.accepts x) w.pending) :=
      popFirst?_eq fun c hc => accepts?_eq (hw.pending c hc)
    rw [meet?, hpop, Option.bind_some]
    cases hpopped : popFirst (P.accepts x) w.pending with
    | none => rw [meet_leaves hpopped]
    | some popped =>
      obtain ⟨c, rest⟩ := popped
      obtain ⟨-, above, habove⟩ := popFirst_split hpopped
      have hc : c.Readable t := hw.pending c (by rw [habove]; simp)
      dsimp only
      rw [namesDiffer?_eq hx hc, meet_takes hpopped]
      rfl
  | _ => rfl

/-- What a search keeps can be read if what it meets can. -/
theorem meet_readable {w : Walk} (hw : w.Readable t) {x : Token} (hx : x.Readable t) (role : Role) :
    (P.meet w role x).1.Readable t := by
  cases role with
  | opener =>
    cases hpopped : popFirst (P.accepts x) w.pending with
    | none =>
      rw [meet_leaves hpopped]
      exact hw
    | some popped =>
      obtain ⟨c, rest⟩ := popped
      obtain ⟨-, above, habove⟩ := popFirst_split hpopped
      have hpending := hw.pending
      rw [habove] at hpending
      rw [meet_takes hpopped]
      refine ⟨fun y hy => hpending y (by simp [hy]), fun pair hpair => ?_⟩
      cases hmis : w.mismatch with
      | some pair' =>
        rw [hmis] at hpair
        cases hpair
        exact hw.mismatch pair hmis
      | none =>
        rw [hmis] at hpair
        have hmem : pair ∈ (if P.namesDiffer x c then some (x, c) else none) := hpair
        split at hmem
        · cases hmem
          exact ⟨hx, hpending c (by simp)⟩
        · cases hmem
  | closer =>
    refine ⟨fun y hy => ?_, hw.mismatch⟩
    rcases List.mem_cons.1 hy with rfl | hy
    · exact hx
    · exact hw.pending y hy
  | _ => exact hw

end Profile

/-! ## Roles and flat conditions -/

namespace Profile

section Definitions

variable (P : Profile) (b : Buffer)

/-- Whether `x` is the `else` or the `if` of an `else if ... then` line that ends in a block. -/
def continuesIf? (s : Scanner) (x : Token) : Option (Bool × Scanner) :=
  if x.kind = .ifBlock then (s.prev? P.dialect b x.start).map fun r => (r.1.kind = .elseLine, r.2)
  else if x.kind = .elseLine then (s.next? P.dialect b x.stop).map fun r => (r.1.kind = .ifBlock, r.2)
  else some (false, s)

/-- The role of a token, told apart from an `if` that continues one. -/
def roleInContext? (s : Scanner) (x : Token) : Option (Role × Scanner) :=
  if x.kind = .ifBlock then
    (P.continuesIf? b s x).map fun r => (if r.1 then .inner else x.kind.role, r.2)
  else some (x.kind.role, s)

/-- A step back over separators. -/
def separatorStep? (s : Scanner × Nat) : Option ((Scanner × Nat) ⊕ (Token × Scanner)) :=
  (s.1.prev? P.dialect b s.2).map separatorTurn

/-- The token before offset `p`, separators skipped. -/
def skipSeparators? (s : Scanner) (p : Nat) : Option (Token × Scanner) := Step.loop (P.separatorStep? b) (s, p)

/-- A step back within a statement, of which `s.2.1` is the first token so far. -/
def statementStep? (s : Scanner × Token × Nat) : Option ((Scanner × Token × Nat) ⊕ (Token × Scanner)) :=
  (s.1.prev? P.dialect b s.2.2).map (statementTurn s.2.1)

/-- The first token of the statement that `first` ends. -/
def statementStart? (s : Scanner) (first : Token) (p : Nat) : Option (Token × Scanner) :=
  Step.loop (P.statementStep? b) (s, first, p)

/-- Whether the `else` continues a chain of single-line conditions. -/
def isFlatElse? (s : Scanner) (els : Token) : Option (Bool × Scanner) :=
  (P.skipSeparators? b s els.start).bind fun r =>
    if r.1.kind = .edge then some (false, r.2)
    else
      (P.statementStart? b r.2 r.1 r.1.start).bind fun q =>
        if q.1.kind = .ifLine then some (true, q.2)
        else if q.1.kind = .elseLine then (P.continuesIf? b q.2 q.1).map fun c => (!c.1, c.2)
        else some (false, q.2)

end Definitions

variable {P : Profile} (hm : P.dialect.marker.head? ≠ some '\n') {b : Buffer}

include hm

theorem continuesIf?_eq (s : Scanner) (x : Token) : P.continuesIf? b s x = some (P.continuesIf b s x) := by
  rw [continuesIf?]
  by_cases h1 : x.kind = .ifBlock
  · rw [if_pos h1, Scanner.prev?_eq hm, continuesIf_ifBlock h1, Option.map_some]
  · rw [if_neg h1]
    by_cases h2 : x.kind = .elseLine
    · rw [if_pos h2, Scanner.next?_eq hm, continuesIf_elseLine h2, Option.map_some]
    · rw [if_neg h2, continuesIf_other h1 h2]

theorem roleInContext?_eq (s : Scanner) (x : Token) :
    P.roleInContext? b s x = some (P.roleInContext b s x) := by
  rw [roleInContext?]
  by_cases hk : x.kind = .ifBlock
  · rw [if_pos hk, continuesIf?_eq hm, roleInContext_ifBlock hk, Option.map_some]
  · rw [if_neg hk, roleInContext_other hk]

theorem skipSeparators?_eq (s : Scanner) (p : Nat) :
    P.skipSeparators? b s p = some (P.skipSeparators b s p) := by
  refine (P.separatorSearch b).loop_eq (fun s => ?_) (s, p)
  rw [separatorStep?, Scanner.prev?_eq hm, Option.map_some]
  rfl

theorem statementStart?_eq (s : Scanner) (first : Token) (p : Nat) :
    P.statementStart? b s first p = some (P.statementStart b s first p) := by
  refine (P.statementSearch b).loop_eq (fun s => ?_) (s, first, p)
  rw [statementStep?, Scanner.prev?_eq hm, Option.map_some]
  rfl

theorem isFlatElse?_eq (s : Scanner) (els : Token) : P.isFlatElse? b s els = some (P.isFlatElse b s els) := by
  rw [isFlatElse?, isFlatElse_eq, skipSeparators?_eq hm, Option.bind_some]
  dsimp only
  split
  · rfl
  · rw [statementStart?_eq hm, Option.bind_some]
    split
    · rfl
    · split
      · rw [continuesIf?_eq hm, Option.map_some]
      · rfl

end Profile

/-! ## Backward -/

namespace Profile

section Definitions

variable (P : Profile) (b : Buffer)

/-- A step back: the token before offset `p`, unless it is an edge, met in its role. -/
def back? (s : Scanner) (w : Walk) (p : Nat) : Option (Scanner × Option (Token × Walk × Bool)) :=
  (s.prev? P.dialect b p).bind fun r =>
    if r.1.kind = .edge then some (r.2, none)
    else
      (P.roleInContext? b r.2 r.1).bind fun q =>
        (P.meet? b.text w q.1 r.1).map fun m => (q.2, some (r.1, m))

/-- A step of the search for an unclosed opener. -/
def unclosedStep? (s : Scanner × Walk × Nat) :
    Option ((Scanner × Walk × Nat) ⊕ (Option Token × Walk × Scanner)) :=
  (P.back? b s.1 s.2.1 s.2.2).map (unclosedTurn s.2.1)

/-- The nearest opener before offset `p` that no closer in between closes, with the search's state when it
    is met. -/
def unclosedBefore? (s : Scanner) (w : Walk) (p : Nat) : Option (Option Token × Walk × Scanner) :=
  Step.loop (P.unclosedStep? b) (s, w, p)

/-- A step of the search for all unclosed openers. -/
def allUnclosedStep? (s : Scanner × Walk × Nat × List Token) :
    Option ((Scanner × Walk × Nat × List Token) ⊕ List Token) :=
  (P.back? b s.1 s.2.1 s.2.2.1).map (allUnclosedTurn s.2.2.2)

/-- All unclosed openers before offset `p`, outermost first, before those in `inner`. -/
def allUnclosedBefore? (s : Scanner) (w : Walk) (p : Nat) (inner : List Token) : Option (List Token) :=
  Step.loop (P.allUnclosedStep? b) (s, w, p, inner)

/-- A step of the search for the opener that takes the bottom of the waiting closers. -/
def openerStep? (s : Scanner × Walk × Nat) : Option ((Scanner × Walk × Nat) ⊕ (Option Token × Scanner)) :=
  (P.back? b s.1 s.2.1 s.2.2).map openerTurn

/-- The opener before offset `p` that takes the bottom of the waiting closers. -/
def openerBefore? (s : Scanner) (w : Walk) (p : Nat) : Option (Option Token × Scanner) :=
  Step.loop (P.openerStep? b) (s, w, p)

/-- The opener of the construct that `closer` closes or continues. -/
def openerOf? (s : Scanner) (closer : Token) : Option (Option Token × Scanner) :=
  P.openerBefore? b s { pending := [closer] } closer.start

end Definitions

variable {P : Profile} {b : Buffer} {s : Scanner} {w : Walk} {p : Nat}

/-- What a step back keeps: the line at hand stays a line of the text, the token met is one of the text, and
    what the search keeps can be read. -/
theorem back_keeps (hs : s.Sound P.dialect b) (hw : w.Readable b.text) (p : Nat) :
    (P.back b s w p).1.Sound P.dialect b ∧ ∀ m ∈ (P.back b s w p).2,
      m.1 ∈ P.dialect.tokenize b.text ∧ m.2.1.Readable b.text := by
  have hprev := (Scanner.prev_spec hs p).follows.sound hs
  rw [back]
  dsimp only
  by_cases hk : (s.prev P.dialect b p).1.kind = .edge
  · rw [if_pos hk]
    exact ⟨hprev, fun m hm => by cases hm⟩
  · rw [if_neg hk]
    refine ⟨(roleInContext_follows hprev _).sound hprev, fun m hm => ?_⟩
    cases hm
    have hmem := Scanner.prev_mem hs hk
    exact ⟨hmem, meet_readable hw (Token.readable_of_mem hmem) _⟩

variable (hm : P.dialect.marker.head? ≠ some '\n')

include hm

theorem back?_eq (hs : s.Sound P.dialect b) (hw : w.Readable b.text) (p : Nat) :
    P.back? b s w p = some (P.back b s w p) := by
  rw [back?, back, Scanner.prev?_eq hm, Option.bind_some]
  dsimp only
  by_cases hk : (s.prev P.dialect b p).1.kind = .edge
  · rw [if_pos hk, if_pos hk]
  · have hx := Token.readable_of_mem (Scanner.prev_mem hs hk)
    rw [if_neg hk, if_neg hk, roleInContext?_eq hm, Option.bind_some, meet?_eq hw hx, Option.map_some]

/-- **The search for an unclosed opener never misses**, and what it gives can be read. -/
theorem unclosedBefore?_eq (hs : s.Sound P.dialect b) (hw : w.Readable b.text) (p : Nat) :
    P.unclosedBefore? b s w p = some (P.unclosedBefore b s w p) ∧
      (∀ o ∈ (P.unclosedBefore b s w p).1, o.Readable b.text) ∧
      (P.unclosedBefore b s w p).2.1.Readable b.text ∧ (P.unclosedBefore b s w p).2.2.Sound P.dialect b := by
  refine (P.unclosedSearch b).loop_eq_of (s := (s, w, p))
    (I := fun s => s.1.Sound P.dialect b ∧ s.2.1.Readable b.text)
    (J := fun r => (∀ o ∈ r.1, o.Readable b.text) ∧ r.2.1.Readable b.text ∧ r.2.2.Sound P.dialect b)
    ?_ ⟨hs, hw⟩
  rintro ⟨s, w, p⟩ ⟨hs, hw⟩
  obtain ⟨hsound, hkeeps⟩ := back_keeps hs hw p
  dsimp only [unclosedSearch, unclosedStep?] at hs hw ⊢
  rw [back?_eq hm hs hw, Option.map_some]
  refine ⟨rfl, ?_⟩
  generalize P.back b s w p = r at hsound hkeeps
  obtain ⟨s', _ | m⟩ := r
  · exact ⟨fun o ho => (by cases ho), hw, hsound⟩
  · obtain ⟨hmem, hkept⟩ := hkeeps m rfl
    dsimp only [unclosedTurn, Option.elim_some]
    split
    · refine ⟨fun o ho => ?_, hkept, hsound⟩
      cases ho
      exact Token.readable_of_mem hmem
    · exact ⟨hsound, hkept⟩

/-- **The search for all unclosed openers never misses.** -/
theorem allUnclosedBefore?_eq (hs : s.Sound P.dialect b) (hw : w.Readable b.text) (p : Nat)
    (inner : List Token) :
    P.allUnclosedBefore? b s w p inner = some (P.allUnclosedBefore b s w p inner) := by
  refine ((P.allUnclosedSearch b).loop_eq_of (s := (s, w, p, inner)) (J := fun _ => True)
    (I := fun s => s.1.Sound P.dialect b ∧ s.2.1.Readable b.text) ?_ ⟨hs, hw⟩).1
  rintro ⟨s, w, p, inner⟩ ⟨hs, hw⟩
  obtain ⟨hsound, hkeeps⟩ := back_keeps hs hw p
  dsimp only [allUnclosedSearch, allUnclosedStep?] at hs hw ⊢
  rw [back?_eq hm hs hw, Option.map_some]
  refine ⟨rfl, ?_⟩
  generalize P.back b s w p = r at hsound hkeeps
  obtain ⟨s', _ | m⟩ := r
  · trivial
  · exact ⟨hsound, (hkeeps m rfl).2⟩

/-- **The search for an opener never misses**, and the opener it gives can be read. -/
theorem openerBefore?_eq (hs : s.Sound P.dialect b) (hw : w.Readable b.text) (p : Nat) :
    P.openerBefore? b s w p = some (P.openerBefore b s w p) ∧
      ∀ o ∈ (P.openerBefore b s w p).1, o.Readable b.text := by
  refine (P.openerSearch b).loop_eq_of (s := (s, w, p))
    (I := fun s => s.1.Sound P.dialect b ∧ s.2.1.Readable b.text)
    (J := fun r => ∀ o ∈ r.1, o.Readable b.text) ?_ ⟨hs, hw⟩
  rintro ⟨s, w, p⟩ ⟨hs, hw⟩
  obtain ⟨hsound, hkeeps⟩ := back_keeps hs hw p
  dsimp only [openerSearch, openerStep?] at hs hw ⊢
  rw [back?_eq hm hs hw, Option.map_some]
  refine ⟨rfl, ?_⟩
  generalize P.back b s w p = r at hsound hkeeps
  obtain ⟨s', _ | m⟩ := r
  · exact fun o ho => by cases ho
  · obtain ⟨hmem, hkept⟩ := hkeeps m rfl
    dsimp only [openerTurn, Option.elim_some]
    split
    · intro o ho
      cases ho
      exact Token.readable_of_mem hmem
    · exact ⟨hsound, hkept⟩

theorem openerOf?_eq (hs : s.Sound P.dialect b) {closer : Token} (hc : closer.Readable b.text) :
    P.openerOf? b s closer = some (P.openerOf b s closer) ∧
      ∀ o ∈ (P.openerOf b s closer).1, o.Readable b.text := by
  refine openerBefore?_eq hm hs ⟨fun x hx => ?_, fun pair hpair => (by cases hpair)⟩ closer.start
  rw [List.mem_singleton.1 hx]
  exact hc

end Profile

/-! ## Forward -/

namespace Profile

section Definitions

variable (P : Profile) (b : Buffer)

/-- A step ahead with cuts that can fail. -/
def ahead? (s : Scanner) (pending : List Token) (role : Role) (x : Token) :
    Option ((Scanner × List Token × Nat) ⊕ (Option Token × Scanner)) :=
  match role with
  | .opener => some (.inl (s, x :: pending, x.stop))
  | .closer => (popFirst? (P.accepts? b.text · x) pending).map (behindCloser s pending x)
  | _ => some (.inl (s, pending, x.stop))

/-- A step of the search for a closer. -/
def closerStep? (s : Scanner × List Token × Nat) :
    Option ((Scanner × List Token × Nat) ⊕ (Option Token × Scanner)) :=
  (s.1.next? P.dialect b s.2.2).bind fun r =>
    if r.1.kind = .edge then some (.inr (none, r.2))
    else (P.roleInContext? b r.2 r.1).bind fun q => P.ahead? b q.2 s.2.1 q.1 r.1

/-- The closer after offset `p` that takes the bottom of the open openers `pending`. -/
def closerAfter? (s : Scanner) (pending : List Token) (p : Nat) : Option (Option Token × Scanner) :=
  Step.loop (P.closerStep? b) (s, pending, p)

/-- The closer of the construct that `opener` opens. -/
def closerOf? (s : Scanner) (opener : Token) : Option (Option Token × Scanner) :=
  P.closerAfter? b s [opener] opener.stop

end Definitions

variable {P : Profile} {b : Buffer} {s : Scanner}

theorem ahead?_eq {x : Token} (hx : x.Readable b.text) (s : Scanner) (pending : List Token) (role : Role) :
    P.ahead? b s pending role x = some (P.ahead s pending role x) := by
  have hpop : popFirst? (P.accepts? b.text · x) pending = some (popFirst (P.accepts · x) pending) :=
    popFirst?_eq fun o _ => accepts?_eq hx
  cases role with
  | closer => rw [ahead?, hpop, Option.map_some, ahead]
  | _ => rfl

variable (hm : P.dialect.marker.head? ≠ some '\n')

include hm

/-- **The search for a closer never misses**, and the closer it gives can be read. -/
theorem closerAfter?_eq (hs : s.Sound P.dialect b) (pending : List Token) (p : Nat) :
    P.closerAfter? b s pending p = some (P.closerAfter b s pending p) ∧
      ∀ c ∈ (P.closerAfter b s pending p).1, c.Readable b.text := by
  refine (P.closerSearch b).loop_eq_of (s := (s, pending, p)) (I := fun s => s.1.Sound P.dialect b)
    (J := fun r => ∀ c ∈ r.1, c.Readable b.text) ?_ hs
  rintro ⟨s, pending, p⟩ hs
  have hnext := (Scanner.next_spec hs p).follows.sound hs
  dsimp only [closerSearch, closerStep?] at hs ⊢
  rw [Scanner.next?_eq hm, Option.bind_some]
  by_cases hk : (s.next P.dialect b p).1.kind = .edge
  · rw [if_pos hk, if_pos hk]
    exact ⟨rfl, fun c hc => (by cases hc)⟩
  · have hx := Token.readable_of_mem (Scanner.next_mem hs hk)
    have hrole := (roleInContext_follows hnext (s.next P.dialect b p).1).sound hnext
    rw [if_neg hk, if_neg hk, roleInContext?_eq hm, Option.bind_some, ahead?_eq hx]
    refine ⟨rfl, ?_⟩
    generalize P.roleInContext b (s.next P.dialect b p).2 (s.next P.dialect b p).1 = q at hrole ⊢
    rcases P.ahead_cases q.2 pending q.1 (s.next P.dialect b p).1 with ⟨hahead, -⟩ | ⟨pending', hahead, -⟩
    · rw [hahead]
      intro c hc
      cases hc
      exact hx
    · rw [hahead]
      exact hrole

theorem closerOf?_eq (hs : s.Sound P.dialect b) (opener : Token) :
    P.closerOf? b s opener = some (P.closerOf b s opener) ∧
      ∀ c ∈ (P.closerOf b s opener).1, c.Readable b.text :=
  closerAfter?_eq hm hs [opener] opener.stop

end Profile

end BlockScript
