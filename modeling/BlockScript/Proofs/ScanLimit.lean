/-
  What a bound on the visits can do to a match.

  A search whose budget runs out sees an edge of the buffer and goes on from there, so a search from a
  spent scanner finds nothing (`openerBefore_spent`, `closerAfter_spent`).  One answer can still come
  from a spent scanner: the budget may run out in the look behind an `if`, and the `if` of an
  `else if ... then` line is then taken for the start of a construct (`openerBefore_errs`).  A search
  forward does not end at an `if`, so it is never misled (`closerAfter_errs`).

  `limited_scan_loses_or_misreads_if` says that this is all: under any bound a match is lost, or it is
  the one found without a bound, or it is such an `if`.
-/
import BlockScript.Proofs.TokenSearch

namespace BlockScript

namespace Profile

variable {P : Profile} {b : Buffer} {s : Scanner} {p : Nat} {t c : Token} {rev post ps : List Token}
  {w : Walk}

/-! ## The bottom of the waiting closers -/

/-- A token leaves the bottom of the waiting closers where it is, or it is an opener that takes it. -/
theorem meet_bottom (hw : w.pending = ps ++ [c]) (role : Role) (t : Token) :
    (∃ ps', (P.meet w role t).1.pending = ps' ++ [c]) ∨
      ((P.meet w role t).1.pending = [] ∧ P.accepts t c) := by
  unfold meet
  split
  · exact .inl ⟨t :: ps, by rw [hw, List.cons_append]⟩
  · split
    · exact .inl ⟨ps, hw⟩
    · next x rest hpop =>
      obtain ⟨hx, above, hsplit⟩ := popFirst_split hpop
      rw [hw] at hsplit
      rcases List.eq_nil_or_concat rest with rfl | ⟨ps', c', rfl⟩
      · obtain ⟨-, hlast⟩ := List.append_inj' hsplit rfl
        cases hlast
        exact .inr ⟨rfl, hx⟩
      · have hsplit' : ps ++ [c] = (above ++ x :: ps') ++ [c'] := by simpa using hsplit
        obtain ⟨-, hlast⟩ := List.append_inj' hsplit' rfl
        cases hlast
        exact .inl ⟨ps', List.concat_eq_append⟩
  · exact .inl ⟨ps, hw⟩

/-- An opener that is found is one of the tokens searched. -/
theorem openerIn_mem {o : Token} (h : P.openerIn w rev = some o) : o ∈ rev := by
  induction rev generalizing w with
  | nil => cases h
  | cons t rev ih =>
    rw [openerIn] at h
    split at h
    · cases h
      exact List.mem_cons_self ..
    · exact List.mem_cons_of_mem _ (ih h)

/-! ## Searches from a spent scanner -/

/-- Once the budget has run out no opener is found. -/
theorem openerBefore_spent (hs : s.Sound P.dialect b) (he : s.exhausted = true) (w : Walk) (p : Nat) :
    (P.openerBefore b s w p).1 = none := by
  have hprev := Scanner.prev_spec hs p
  rw [openerBefore_eq]
  simp only [hprev.edge (hprev.follows.exhausted he), if_true]

/-- Once the budget has run out no closer is found. -/
theorem closerAfter_spent (hs : s.Sound P.dialect b) (he : s.exhausted = true) (pending : List Token)
    (p : Nat) : (P.closerAfter b s pending p).1 = none := by
  have hnext := Scanner.next_spec hs p
  rw [closerAfter_ahead]
  simp only [hnext.edge (hnext.follows.exhausted he), if_true]

/-- The budget runs out over a role only when it is the role of an `if`. -/
theorem kind_eq_ifBlock_of_spent (he : s.exhausted = false)
    (hr : (P.roleInContext b s t).2.exhausted = true) : t.kind = .ifBlock := by
  by_contra hk
  rw [roleInContext_other hk] at hr
  exact absurd hr (by simp [he])

/-! ## Backward -/

/-- An `if` that would end the walk as an opener ends it, unless an `else` stands right before it: then the
    walk passes it by. -/
theorem openerIn_if (hw : w.pending = ps ++ [c]) (hk : t.kind = .ifBlock)
    (hempty : (P.meet w .opener t).1.pending = []) (rev : List Token) :
    P.openerIn w (t :: rev) = some t ∨
    ∃ els earlier, rev = els :: earlier ∧ els.kind = .elseLine ∧ P.openerIn w (t :: rev) = P.openerIn w rev := by
  by_cases hels : rev.head?.any (·.kind = .elseLine)
  · obtain ⟨els, hhead, hkind⟩ := (Option.any_eq_true _ _).1 hels
    obtain ⟨earlier, rfl⟩ := List.head?_eq_some_iff.1 hhead
    have hinner : t.roleAfter (els :: earlier).head? = .inner := if_pos ⟨hk, hels⟩
    refine .inr ⟨els, earlier, rfl, by simpa using hkind, ?_⟩
    rw [openerIn, hinner]
    simp [meet, hw]
  · have hafter : t.roleAfter rev.head? = .opener := by
      rw [Token.roleAfter, if_neg fun hif => hels hif.2, hk, TokenKind.role_eq]
    simp only [openerIn, hafter, hempty, List.isEmpty_nil, if_true, true_or]

/-- **How a bounded search for an opener can err**: it finds nothing, or what it finds without a bound,
    or the `if` of an `else if ... then` line that accepts the closer, and then what it finds without a
    bound, if anything, stands before that line's `if`. -/
theorem openerBefore_errs (hs : s.Sound P.dialect b) (h : P.dialect.Cut b.text p rev post)
    (hw : w.pending = ps ++ [c]) :
    (P.openerBefore b s w p).1 = none ∨
    (P.openerBefore b s w p).1 = P.openerIn w rev ∨
    ∃ mid i els earlier, rev = mid ++ i :: els :: earlier ∧ i.kind = .ifBlock ∧ els.kind = .elseLine ∧
      P.accepts i c ∧ (P.openerBefore b s w p).1 = some i ∧
      ∀ o, P.openerIn w rev = some o → o ∈ els :: earlier := by
  induction rev generalizing s w p post ps with
  | nil =>
    rw [openerBefore_eq]
    simp only [back_stop hs h, if_true, true_or]
  | cons t rev ih =>
    obtain ⟨hfollows, hstep⟩ := back_step hs h
    rw [openerBefore_eq]
    rcases hstep with ⟨-, hk⟩ | ⟨he, ht, hne, hrole, hspent⟩
    · simp only [hk, if_true, true_or]
    · have hsound := hrole.follows.sound (hfollows.sound hs)
      simp only [ht, hne, if_false]
      have hkind := kind_eq_ifBlock_of_spent (P := P) (b := b) (t := t) he
      generalize P.roleInContext b (s.prev P.dialect b p).2 t = q at *
      cases hq : q.2.exhausted with
      | false =>
        rw [hrole.fst_eq hq]
        rcases meet_bottom hw (t.roleAfter rev.head?) t with ⟨ps', hps'⟩ | ⟨hempty, -⟩
        · have hwait : (P.meet w (t.roleAfter rev.head?) t).1.pending.isEmpty = false := by
            rw [hps']
            simp
          simp only [openerIn, hwait, Bool.false_eq_true, if_false]
          rcases ih hsound h.back hps' with hnone | heq | ⟨mid, i, els, earlier, hrev, hi⟩
          · exact .inl hnone
          · exact .inr (.inl heq)
          · exact .inr (.inr ⟨t :: mid, i, els, earlier, by rw [hrev, List.cons_append], hi⟩)
        · exact .inr (.inl (by simp only [openerIn, hempty, List.isEmpty_nil, if_true]))
      | true =>
        -- the budget ran out behind an `if`, which now counts as an opener
        have hk := hkind hq
        have hopener : t.kind.role = .opener := by rw [hk, TokenKind.role_eq]
        rw [hspent hq, hopener]
        rcases meet_bottom hw .opener t with ⟨ps', hps'⟩ | ⟨hempty, hacc⟩
        · have hwait : (P.meet w .opener t).1.pending.isEmpty = false := by
            rw [hps']
            simp
          simp only [hwait, Bool.false_eq_true, if_false]
          exact .inl (openerBefore_spent hsound hq _ _)
        · simp only [hempty, List.isEmpty_nil, if_true]
          rcases openerIn_if hw hk hempty rev with hsome | ⟨els, earlier, rfl, hels, hsame⟩
          · exact .inr (.inl hsome.symm)
          · exact .inr (.inr ⟨[], t, els, earlier, rfl, hk, hels, hacc, rfl, fun o ho => openerIn_mem (hsame ▸ ho)⟩)

/-! ## Forward -/

/-- A search for a closer that has spent its budget has found nothing: no look behind is needed to know
    a closer. -/
theorem closerAfter_eq_none (hs : s.Sound P.dialect b) (pending : List Token)
    (h : P.dialect.Gap b.text p rev post) (hn : (P.closerAfter b s pending p).2.exhausted = true) :
    (P.closerAfter b s pending p).1 = none := by
  induction post generalizing s pending p rev with
  | nil =>
    rw [closerAfter_ahead]
    simp only [ahead_stop hs h, if_true]
  | cons t post ih =>
    obtain ⟨hfollows, hstep⟩ := ahead_step hs h
    rw [closerAfter_ahead] at hn ⊢
    rcases hstep with ⟨-, hk⟩ | ⟨he, ht, hne, hrole, hspent⟩
    · simp only [hk, if_true]
    · have hsound := hrole.follows.sound (hfollows.sound hs)
      simp only [ht, hne, if_false] at hn ⊢
      have hkind := kind_eq_ifBlock_of_spent (P := P) (b := b) (t := t) he
      generalize P.roleInContext b (s.next P.dialect b p).2 t = q at *
      rcases P.ahead_cases q.2 pending q.1 t with ⟨hahead, hcloser, -⟩ | ⟨pending', hahead, -⟩
      · -- the budget runs out behind an `if` only, which is no closer
        rw [hahead] at hn
        have hopener := hspent hn
        rw [hcloser, hkind hn, TokenKind.role_eq] at hopener
        cases hopener
      · rw [hahead] at hn ⊢
        exact ih hsound pending' h.ahead hn

/-- A bounded search for a closer finds nothing or what it finds without a bound. -/
theorem closerAfter_errs (hs : s.Sound P.dialect b) (pending : List Token)
    (h : P.dialect.Gap b.text p rev post) :
    (P.closerAfter b s pending p).1 = none ∨
      (P.closerAfter b s pending p).1 = P.closerIn rev.head? pending post := by
  cases hn : (P.closerAfter b s pending p).2.exhausted with
  | false => exact .inr ((closerAfter_gives hs pending h).fst_eq hn)
  | true => exact .inl (closerAfter_eq_none hs pending h hn)

/-! ## Matches -/

/-- The profile with the bound on visits lifted. -/
def unlimited (P : Profile) : Profile := { P with layout := { P.layout with maxVisits := 0 } }

theorem openerIn_unlimited (w : Walk) (rev : List Token) :
    P.unlimited.openerIn w rev = P.openerIn w rev := by
  induction rev generalizing w with
  | nil => rfl
  | cons t rev ih => simp only [openerIn, ih]; rfl

theorem closerIn_unlimited (previous : Option Token) (pending post : List Token) :
    P.unlimited.closerIn previous pending post = P.closerIn previous pending post := by
  induction post generalizing previous pending with
  | nil => rfl
  | cons t post ih => simp only [closerIn, ih]; rfl

/-- Over the tokens a match does not depend on the bound. -/
theorem matchIn_unlimited (rev : List Token) (t : Token) (post : List Token) :
    P.unlimited.matchIn rev t post = P.matchIn rev t post := by
  simp only [matchIn, openerIn_unlimited, closerIn_unlimited]

theorem findMatch_edge (hk : (P.classify b p).kind = .edge) : P.findMatch b p = none := by
  have hk' : (P.scanner.next P.dialect b p).1.kind = .edge := hk
  rw [findMatch_eq]
  generalize P.scanner.next P.dialect b p = r at hk' ⊢
  have hcont : P.continuesIf b r.2 r.1 = (false, r.2) :=
    continuesIf_other (by simp [hk']) (by simp [hk'])
  simp only [hcont, hk', TokenKind.role_eq, Bool.false_eq_true, if_false]

/-- How a bounded match can err: see `openerBefore_errs`. -/
def Misread (P : Profile) (rev : List Token) (t : Token) (post : List Token) (i : Token) : Prop :=
  ∃ mid els earlier, rev = mid ++ i :: els :: earlier ∧ i.kind = .ifBlock ∧ els.kind = .elseLine ∧
    (P.accepts i t ∨ P.accepts i t.asElse) ∧
    ∀ found, P.matchIn rev t post = some found → found.closer = t ∧ found.opener ∈ els :: earlier

/-- The search back from a keyword, as a match: it fails, agrees, or misreads an `if`. -/
theorem openerOf_errs (hs : s.Sound P.dialect b) {c : Token} (hc : c = t ∨ c = t.asElse)
    (h : P.dialect.tokenize b.text = rev.reverse ++ t :: post)
    (hmatch : P.matchIn rev t post = (P.openerIn { pending := [c] } rev).map (⟨·, t⟩)) :
    (P.openerOf b s c).1.map (Pair.mk · t) = none ∨
    (P.openerOf b s c).1.map (Pair.mk · t) = P.matchIn rev t post ∨
    ∃ i, P.Misread rev t post i ∧ (P.openerOf b s c).1.map (Pair.mk · t) = some ⟨i, t⟩ := by
  have hstart : c.start = t.start := by rcases hc with rfl | rfl <;> rfl
  have hcut : P.dialect.Cut b.text c.start rev (t :: post) := hstart ▸ .of_start h
  have hw : ({ pending := [c] } : Walk).pending = [] ++ [c] := rfl
  rw [openerOf]
  rcases openerBefore_errs hs hcut hw with
    hnone | heq | ⟨mid, i, els, earlier, hrev, hi, hels, hacc, hfound, hbefore⟩
  · exact .inl (by rw [hnone]; rfl)
  · exact .inr (.inl (by rw [heq, hmatch]))
  · refine .inr (.inr ⟨i, ⟨mid, els, earlier, hrev, hi, hels, ?_, ?_⟩, by rw [hfound]; rfl⟩)
    · rcases hc with rfl | rfl
      · exact .inl hacc
      · exact .inr hacc
    · intro pair hpair
      rw [hmatch] at hpair
      obtain ⟨o, ho, rfl⟩ := Option.map_eq_some_iff.1 hpair
      exact ⟨rfl, hbefore o ho⟩

/-- The search back from a closer or an `else`, once it is known whether that is flat. -/
theorem notFlat_errs (hs : s.Sound P.dialect b)
    (h : P.dialect.tokenize b.text = rev.reverse ++ t :: post)
    (hmatch : P.matchIn rev t post = if t.kind = .elseBlock && flatAfter rev then none
      else (P.openerIn { pending := [t] } rev).map (⟨·, t⟩)) :
    let f := if t.kind = .elseBlock then P.isFlatElse b s t else (false, s)
    let found := if f.1 then none else (P.openerOf b f.2 t).1.map (Pair.mk · t)
    found = none ∨ found = P.matchIn rev t post ∨
      ∃ i, P.Misread rev t post i ∧ found = some ⟨i, t⟩ := by
  have hflat : s.Gives P.dialect b (if t.kind = .elseBlock then P.isFlatElse b s t else (false, s))
      (t.kind = .elseBlock && flatAfter rev) := by
    by_cases hk : t.kind = .elseBlock
    · simp only [hk, if_true, decide_true, Bool.true_and]
      exact isFlatElse_gives hs hk h
    · simp only [hk, if_false, decide_false, Bool.false_and]
      exact ⟨.refl s, fun _ => rfl⟩
  generalize (if t.kind = .elseBlock then P.isFlatElse b s t else (false, s)) = f at hflat ⊢
  have hs' := hflat.follows.sound hs
  dsimp only
  cases hf : f.1 with
  | true => exact .inl rfl
  | false =>
    simp only [Bool.false_eq_true, if_false]
    cases he : f.2.exhausted with
    | true => exact .inl (by rw [openerOf, openerBefore_spent hs' he]; rfl)
    | false =>
      rw [← hflat.fst_eq he, hf] at hmatch
      exact openerOf_errs hs' (.inl rfl) h hmatch

/-- Once the budget is spent, the search back from a closer or an `else` finds nothing. -/
theorem notFlat_spent (hs : s.Sound P.dialect b) (he : s.exhausted = true) (t : Token) :
    let f := if t.kind = .elseBlock then P.isFlatElse b s t else (false, s)
    (if f.1 then none else (P.openerOf b f.2 t).1.map (Pair.mk · t)) = none := by
  have hf : s.Follows P.dialect b (if t.kind = .elseBlock then P.isFlatElse b s t else (false, s)).2 := by
    split
    · exact isFlatElse_follows hs t
    · exact .refl _
  intro f
  rw [openerOf, openerBefore_spent (hf.sound hs) (hf.exhausted he)]
  exact ite_self none

/-- **How a bounded match can err**: it is lost, or right, or misreads an `if`. -/
theorem findMatch_errs (h : P.dialect.Gap b.text p rev (t :: post)) :
    P.findMatch b p = none ∨ P.classify b p = t ∧
      (P.findMatch b p = P.matchIn rev t post ∨
        ∃ i, P.Misread rev t post i ∧ P.findMatch b p = some ⟨i, t⟩) := by
  have hnext := Scanner.next_spec (P.scanner_sound b) p
  cases he : (P.scanner.next P.dialect b p).2.exhausted with
  | true => exact .inl (findMatch_edge (hnext.edge he))
  | false =>
    have ht : (P.scanner.next P.dialect b p).1 = t := by
      rw [hnext.fst_eq he, h.tokenAfter, List.head?_cons, Option.getD_some]
    have hs := hnext.follows.sound (P.scanner_sound b)
    obtain ⟨hcont, hdeny⟩ := continuesIf_gives hs h.tokens
    have hs' := hcont.follows.sound hs
    refine or_and_left.2 ⟨.inr ht, ?_⟩
    rw [findMatch_eq]
    simp only [ht]
    generalize P.continuesIf b (P.scanner.next P.dialect b p).2 t = q at hcont hdeny hs' ⊢
    cases hq : q.2.exhausted with
    | true =>
      -- from here on nothing is found any more
      left
      simp only [hdeny hq, Bool.false_eq_true, if_false]
      split
      · rw [closerOf, closerAfter_spent hs' hq]
        rfl
      · rfl
      · exact notFlat_spent hs' hq t
    | false =>
      have hc := hcont.fst_eq hq
      cases hc' : q.1 with
      | true =>
        have hmatch : P.matchIn rev t post =
            (P.openerIn { pending := [t.asElse] } rev).map (⟨·, t⟩) := by
          rw [matchIn, ← hc, hc', if_pos rfl]
        exact openerOf_errs hs' (.inr rfl) h.tokens hmatch
      | false =>
        simp only [Bool.false_eq_true, if_false]
        rw [hc'] at hc
        cases hr : t.kind.role with
        | opener =>
          have hmatch : P.matchIn rev t post = (P.closerIn (some t) [t] post).map (⟨t, ·⟩) := by
            simp only [matchIn, ← hc, hr, Bool.false_eq_true, if_false]
          rcases closerAfter_errs hs' [t] (.of_stop h.tokens) with hnone | heq
          · exact .inl (by rw [closerOf, hnone]; rfl)
          · exact .inr (.inl (by rw [closerOf, heq, hmatch]; rfl))
        | neutral => exact .inl rfl
        | inner =>
          exact notFlat_errs hs' h.tokens (by
            simp only [matchIn, ← hc, hr, Bool.false_eq_true, if_false])
        | closer =>
          exact notFlat_errs hs' h.tokens (by
            simp only [matchIn, ← hc, hr, Bool.false_eq_true, if_false])

/-- **A bounded scan may lose a match, and it errs in one way only**: under any bound the match is lost,
    or it is the one found without a bound, or it is the `if` of a block `else if` line before the
    keyword that accepts it, and then the match found without a bound, if any, stands before that
    `if`. -/
theorem limited_scan_loses_or_misreads_if (P : Profile) (b : Buffer) (p : Nat) :
    P.matching b p = none ∨
    P.matching b p = P.unlimited.matching b p ∨
    ∃ pre els i mid t post, P.tokenize b.text = pre ++ els :: i :: (mid ++ t :: post) ∧
      els.kind = .elseLine ∧ i.kind = .ifBlock ∧
      P.unlimited.classify b p = t ∧ (P.accepts i t ∨ P.accepts i t.asElse) ∧
      P.matching b p = some i.start ∧
      ∀ q, P.unlimited.matching b p = some q → q < i.start := by
  obtain ⟨rev, post, hgap⟩ := P.dialect.exists_gap b.text p
  cases post with
  | nil =>
    have hedge : (P.classify b p).kind = .edge := ahead_stop (P.scanner_sound b) hgap
    exact .inl (by rw [matching, findMatch_edge hedge]; rfl)
  | cons t post =>
    have hgap' : P.unlimited.dialect.Gap b.text p rev (t :: post) := hgap
    have htrue := findMatch_eq_in (P := P.unlimited) rfl hgap'
    rw [matchIn_unlimited] at htrue
    have hclassify : P.unlimited.classify b p = t := by
      have hnext := Scanner.next_spec (P.unlimited.scanner_sound b) p
      rw [classify, (hnext.of_unlimited rfl).1, hgap'.tokenAfter, List.head?_cons, Option.getD_some]
    rcases findMatch_errs hgap with hnone | ⟨ht, heq | ⟨i, hmis, hfound⟩⟩
    · exact .inl (by rw [matching, hnone]; rfl)
    · exact .inr (.inl (by rw [matching, matching, heq, htrue, ht, hclassify]))
    · obtain ⟨mid, els, earlier, rfl, hi, hels, hacc, hbefore⟩ := hmis
      have htokens : P.tokenize b.text =
          earlier.reverse ++ els :: i :: (mid.reverse ++ t :: post) := by
        rw [tokenize, hgap.tokens]
        simp
      have hlt : i.start < t.start := by
        have hsplit : P.dialect.tokenize b.text =
            (mid ++ i :: els :: earlier).reverse ++ t :: post := hgap.tokens
        have := (P.dialect.tokenize_apart hsplit).1 i (by simp)
        omega
      have hbefore' : ∀ o ∈ els :: earlier, o.start < i.start := by
        intro o ho
        have hsplit : P.dialect.tokenize b.text =
            (els :: earlier).reverse ++ i :: (mid.reverse ++ t :: post) := by
          rw [show P.dialect.tokenize b.text = _ from htokens]
          simp
        have := (P.dialect.tokenize_apart hsplit).1 o (List.mem_reverse.2 ho)
        omega
      refine .inr (.inr ⟨_, els, i, _, t, post, htokens, hels, hi, hclassify, hacc, ?_, ?_⟩)
      · have hne : i ≠ t := by
          rintro rfl
          omega
        rw [matching, hfound, ht]
        simp [hne]
      · intro q hq
        rw [matching, htrue, hclassify] at hq
        obtain ⟨found, hfound', rfl⟩ := Option.map_eq_some_iff.1 hq
        have hopener := hbefore' _ (hbefore found hfound').2
        have hne : found.opener ≠ t := by
          intro heq
          rw [heq] at hopener
          omega
        rwa [if_neg hne]

/-- The budget runs out behind the `if` of the first line, so `end if` is matched with it; without a
    bound it is matched with nothing. -/
theorem limited_scan_misreads_if :
    let P : Profile := { layout := { maxVisits := 5 } }
    let b := Buffer.ofText "else if b then\nend if\n".toList
    P.matching b 15 = some 5 ∧ P.unlimited.matching b 15 = none := by
  decide +kernel

end Profile

end BlockScript
