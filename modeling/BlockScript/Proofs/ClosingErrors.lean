/-
  When no closing text can be given.

  The search for the innermost open construct remembers the first pair on its way whose names differ.  Here
  its way is written out as the list of the pairs it takes (`takenIn`):

  1. what it remembers is the first pair of that list whose names differ (`unclosedIn_mismatch`);
  2. on a cleanly nested script the list holds the pairs that a parse closes behind the innermost open
     construct, and no others (`mem_takenIn`);
  3. their openers come in the order of the search, the last one first (`takenIn_order`).

  So the pair of the error is, of all pairs behind the innermost open construct whose names differ, the one
  that is opened last, and without such a pair there is no error.  The main result is `closingText_error_iff`.
-/
import BlockScript.Nesting.Closing
import BlockScript.Proofs.NamePairs

namespace BlockScript

/-- The pairs closed behind an offset whose names differ. -/
def Parse.mismatchesAfter (P : Profile) (q : Parse) (p : Nat) : List Pair :=
  q.pairs.filter fun r => p < r.closer.start ∧ P.namesDiffer r.opener r.closer

namespace Profile

/-! ## The pairs on the way -/

/-- The pairs that a search backward takes before it meets an unclosed opener. -/
def takenIn (P : Profile) (pending : List Token) : List Token → List Pair
  | [] => []
  | t :: rev =>
    match t.roleAfter rev.head? with
    | .closer => P.takenIn (t :: pending) rev
    | .opener =>
      match popFirst (P.accepts t) pending with
      | some (c, rest) => ⟨t, c⟩ :: P.takenIn rest rev
      | none => []
    | _ => P.takenIn pending rev

variable {P : Profile} {t c o : Token} {pending rest rev : List Token}

theorem takenIn_closer (hr : t.roleAfter rev.head? = .closer) :
    P.takenIn pending (t :: rev) = P.takenIn (t :: pending) rev := by
  rw [takenIn, hr]

theorem takenIn_takes (hr : t.roleAfter rev.head? = .opener)
    (hpop : popFirst (P.accepts t) pending = some (c, rest)) :
    P.takenIn pending (t :: rev) = ⟨t, c⟩ :: P.takenIn rest rev := by
  rw [takenIn, hr]
  dsimp only
  rw [hpop]

theorem takenIn_leaves (hr : t.roleAfter rev.head? = .opener)
    (hpop : popFirst (P.accepts t) pending = none) : P.takenIn pending (t :: rev) = [] := by
  rw [takenIn, hr]
  dsimp only
  rw [hpop]

theorem takenIn_other (ho : t.roleAfter rev.head? ≠ .opener) (hc : t.roleAfter rev.head? ≠ .closer) :
    P.takenIn pending (t :: rev) = P.takenIn pending rev := by
  rw [takenIn]
  split
  · exact absurd ‹_› hc
  · exact absurd ‹_› ho
  · rfl

/-- **A search remembers the first pair on its way whose names differ.** -/
theorem unclosedIn_mismatch (w : Walk) (rev : List Token) :
    (P.unclosedIn w rev).2.mismatch =
      w.mismatch.or (((P.takenIn w.pending rev).find? P.differs).map fun r => (r.opener, r.closer)) := by
  induction rev generalizing w with
  | nil => exact Option.or_none.symm
  | cons t rev ih =>
    by_cases hc : t.roleAfter rev.head? = .closer
    · have hmeet : P.meet w (t.roleAfter rev.head?) t = ({ w with pending := t :: w.pending }, false) := by
        rw [hc]
        rfl
      rw [takenIn_closer hc, unclosedIn, hmeet]
      exact ih _
    · by_cases ho : t.roleAfter rev.head? = .opener
      · cases hpop : popFirst (P.accepts t) w.pending with
        | none =>
          rw [takenIn_leaves ho hpop, unclosedIn, ho, meet_leaves hpop]
          exact Option.or_none.symm
        | some found =>
          obtain ⟨c, rest⟩ := found
          rw [takenIn_takes ho hpop, unclosedIn, ho, meet_takes hpop]
          refine (ih _).trans ?_
          -- the pair just taken is the next one to be remembered
          cases w.mismatch with
          | some m => rfl
          | none =>
            by_cases hd : P.namesDiffer t c
            · have hpair : P.differs ⟨t, c⟩ := hd
              rw [List.find?_cons_of_pos hpair, if_pos hd]
              rfl
            · have hpair : ¬P.differs ⟨t, c⟩ := hd
              rw [List.find?_cons_of_neg hpair, if_neg hd]
              rfl
      · have hmeet : P.meet w (t.roleAfter rev.head?) t = (w, false) := by
          unfold meet
          split
          · exact absurd ‹_› hc
          · exact absurd ‹_› ho
          · rfl
        rw [takenIn_other ho hc, unclosedIn, hmeet]
        exact ih w

/-- What a search stops at is an opener. -/
theorem role_of_unclosedIn {w : Walk} (h : (P.unclosedIn w rev).1 = some o) : o.kind.role = .opener := by
  induction rev generalizing w with
  | nil => cases h
  | cons t rev ih =>
    rw [unclosedIn] at h
    cases hmeet : P.meet w (t.roleAfter rev.head?) t with
    | mk w' unclosed =>
      rw [hmeet] at h
      cases unclosed with
      | false => exact ih h
      | true =>
        obtain rfl : t = o := Option.some.inj h
        have ho : t.roleAfter rev.head? = .opener := by
          by_contra ho
          unfold meet at hmeet
          split at hmeet
          · cases hmeet
          · exact ho ‹_›
          · cases hmeet
        rw [Token.roleAfter] at ho
        split at ho
        · cases ho
        · exact ho

/-- The openers of the pairs are met in turn. -/
theorem openers_takenIn_sublist (P : Profile) (pending rev : List Token) :
    ((P.takenIn pending rev).map (·.opener)).Sublist rev := by
  fun_induction takenIn P pending rev with
  | case1 => exact .slnil
  | case2 pending t rev hr ih => exact ih.cons t
  | case3 pending t rev hr c rest hpop ih => exact ih.cons_cons t
  | case4 pending t rev hr hpop => exact List.nil_sublist _
  | case5 pending t rev hr hr' ih => exact ih.cons t

/-- **The pairs come in the order of the search**, the one that is opened last first. -/
theorem takenIn_order (hrev : rev.Pairwise fun x y => y.start < x.start) (pending : List Token) :
    (P.takenIn pending rev).Pairwise fun r r' => r'.opener.start < r.opener.start :=
  List.pairwise_map.1 (hrev.sublist (openers_takenIn_sublist P pending rev))

/-- The first pair with a property is the one that is opened last. -/
theorem find?_eq_some_iff_last {rs : List Pair}
    (horder : rs.Pairwise fun r r' => r'.opener.start < r.opener.start) {f : Pair → Bool} {r : Pair} :
    rs.find? f = some r ↔ (r ∈ rs ∧ f r) ∧ ∀ r' ∈ rs, f r' → r'.opener.start ≤ r.opener.start := by
  rw [List.find?_eq_some_iff_append]
  constructor
  · rintro ⟨hr, before, behind, rfl, hbefore⟩
    obtain ⟨-, hrest, -⟩ := List.pairwise_append.1 horder
    refine ⟨⟨by simp, hr⟩, ?_⟩
    intro r' hr' hf
    rcases List.mem_append.1 hr' with hr' | hr'
    · exact absurd hf (by simpa using hbefore r' hr')
    · rcases List.mem_cons.1 hr' with rfl | hr'
      · exact Nat.le_refl _
      · exact Nat.le_of_lt ((List.pairwise_cons.1 hrest).1 r' hr')
  · rintro ⟨⟨hmem, hr⟩, hlast⟩
    obtain ⟨before, behind, rfl⟩ := List.append_of_mem hmem
    refine ⟨hr, before, behind, rfl, ?_⟩
    intro r' hr'
    have hlt := (List.pairwise_append.1 horder).2.2 r' hr' r (List.mem_cons_self ..)
    by_contra hf
    have hle := hlast r' (List.mem_append_left _ hr') (by simpa using hf)
    omega

/-! ## The pairs of a parse -/

/-- The closer of a pair is among the tokens read. -/
theorem closer_mem_of_mem_pairs {r : Pair} (h : r ∈ (parse rev.reverse).pairs) : r.closer ∈ rev := by
  induction rev with
  | nil => cases h
  | cons t rev ih =>
    rw [parse_snoc, Parse.read] at h
    split at h
    · exact List.mem_cons_of_mem _ (ih h)
    · rcases List.mem_append.1 h with h | h
      · exact List.mem_cons_of_mem _ (ih h)
      · rw [List.mem_singleton.1 h]
        exact List.mem_cons_self ..
    · exact List.mem_cons_of_mem _ (ih h)

/-- **The pairs on the way are those closed behind the innermost open construct.**  Here the topmost
    constructs `os` of the stack have their closers `ps` collected, and their pairs are still to be met. -/
theorem mem_takenIn (h : P.CleanlyNested rev.reverse) (hrev : rev.Pairwise fun x y => y.start < x.start)
    {os ps base : List Token} (hstack : (parse rev.reverse).stack = os ++ base)
    (hps : List.Forall₂ (P.accepts · ·) os ps) (r : Pair) :
    r ∈ P.takenIn ps rev ↔ r ∈ List.zipWith Pair.mk os ps ∨
      r ∈ (parse rev.reverse).pairs ∧ ∀ o, base.head? = some o → o.start < r.closer.start := by
  induction rev generalizing os ps with
  | nil =>
    obtain ⟨rfl, -⟩ := List.append_eq_nil_iff.1 hstack.symm
    simp [takenIn, parse]
  | cons t rev ih =>
    have hclean : P.CleanlyNested rev.reverse := .of_append (List.reverse_cons ▸ h)
    obtain ⟨hfirst, hrest⟩ := List.pairwise_cons.1 hrev
    have hstep := Parse.read_cases h.last
    rw [parse_snoc] at hstack ⊢
    rw [parse_previous] at hstep
    rcases hstep with ⟨hr, hread⟩ | ⟨hr, o, stack, hs, hacc, hread⟩ | ⟨ho, hc, hread⟩
    · rw [hread] at hstack ⊢
      cases hps with
      | nil =>
        -- the innermost open construct: every pair before it is closed before it
        obtain rfl : t :: (parse rev.reverse).stack = base := hstack
        rw [takenIn_leaves hr rfl]
        constructor
        · intro hmem
          cases hmem
        · rintro (hmem | ⟨hpair, hafter⟩)
          · cases hmem
          · have hlt := hafter t rfl
            have hgt := hfirst r.closer (closer_mem_of_mem_pairs hpair)
            omega
      | @cons _ c os' ps' hacc hps =>
        obtain ⟨rfl, hbelow⟩ := List.cons.inj hstack
        rw [takenIn_takes hr (popFirst_cons_of_pos hacc ps'), List.zipWith_cons_cons, List.mem_cons,
          List.mem_cons, ih hclean hrest hbelow hps, or_assoc]
    · -- a closer, which stands behind all that is open before it
      rw [hread] at hstack ⊢
      obtain rfl : stack = os ++ base := hstack
      have hafter : ∀ o', base.head? = some o' → o'.start < t.start := by
        intro o' ho'
        have hopen : o' ∈ (parse rev.reverse).stack := by
          rw [hs]
          exact List.mem_cons_of_mem _ (List.mem_append_right _ (List.mem_of_head? ho'))
        exact hfirst o' (List.mem_reverse.1 (mem_of_mem_stack hopen))
      rw [takenIn_closer hr, ih hclean hrest hs (.cons hacc hps), List.zipWith_cons_cons, List.mem_cons,
        List.mem_append, List.mem_singleton]
      constructor
      · rintro ((rfl | hzip) | ⟨hpair, hlater⟩)
        · exact Or.inr ⟨Or.inr rfl, hafter⟩
        · exact Or.inl hzip
        · exact Or.inr ⟨Or.inl hpair, hlater⟩
      · rintro (hzip | ⟨hpair | rfl, hlater⟩)
        · exact Or.inl (Or.inr hzip)
        · exact Or.inr ⟨hpair, hlater⟩
        · exact Or.inl (Or.inl rfl)
    · rw [hread] at hstack ⊢
      rw [takenIn_other ho hc]
      exact ih hclean hrest hstack hps

section

variable {ts below : List Token} (hclean : P.CleanlyNested ts)
  (hstarts : ts.Pairwise fun x y => x.start < y.start) (hstack : (parse ts).stack = o :: below)

include hclean hstarts hstack

/-- The pairs asked for are those on the way whose names differ. -/
theorem mem_mismatchesAfter (r : Pair) :
    r ∈ (parse ts).mismatchesAfter P o.start ↔ r ∈ P.takenIn [] ts.reverse ∧ P.differs r := by
  have hrev : P.CleanlyNested ts.reverse.reverse := by rwa [List.reverse_reverse]
  have hmem := mem_takenIn hrev (List.pairwise_reverse.2 hstarts) (List.nil_append _).symm .nil r
  rw [List.reverse_reverse, hstack] at hmem
  simp only [List.zipWith_nil_left, List.not_mem_nil, false_or, List.head?_cons, Option.some.injEq,
    forall_eq'] at hmem
  rw [Parse.mismatchesAfter, List.mem_filter, decide_eq_true_iff, hmem, and_assoc]
  rfl

/-- **The pair remembered is the one asked for that is opened last.** -/
theorem mismatch_eq_some_iff (r : Pair) :
    (P.unclosedIn {} ts.reverse).2.mismatch = some (r.opener, r.closer) ↔
      r ∈ (parse ts).mismatchesAfter P o.start ∧
        ∀ r' ∈ (parse ts).mismatchesAfter P o.start, r'.opener.start ≤ r.opener.start := by
  have hlate := mem_mismatchesAfter hclean hstarts hstack
  have hsome : ((P.takenIn [] ts.reverse).find? P.differs).map (fun r => (r.opener, r.closer)) =
      some (r.opener, r.closer) ↔ (P.takenIn [] ts.reverse).find? P.differs = some r := by
    constructor
    · intro h
      obtain ⟨⟨begun, ended⟩, hfound, heq⟩ := Option.map_eq_some_iff.1 h
      obtain ⟨rfl, rfl⟩ := Prod.mk.inj heq
      exact hfound
    · intro h
      rw [h, Option.map_some]
  rw [unclosedIn_mismatch, Option.none_or, hsome,
    find?_eq_some_iff_last (takenIn_order (List.pairwise_reverse.2 hstarts) []), hlate]
  simp only [hlate, and_imp]

theorem mismatch_eq_none_iff :
    (P.unclosedIn {} ts.reverse).2.mismatch = none ↔ (parse ts).mismatchesAfter P o.start = [] := by
  have hlate := mem_mismatchesAfter hclean hstarts hstack
  rw [unclosedIn_mismatch, Option.none_or, Option.map_eq_none_iff, List.find?_eq_none,
    List.eq_nil_iff_forall_not_mem]
  simp only [hlate, not_and]

end

/-! ## The answers -/

/-- Tokens start one after the other. -/
theorem tokenize_starts (P : Profile) (t : Text) : (P.tokenize t).Pairwise fun x y => x.start < y.start := by
  have hlaid := P.dialect.tokenize_laid t
  refine hlaid.pairwise.imp_of_mem ?_
  intro x y hx _ hxy
  have hbounds := hlaid.bounds hx
  omega

/-- The answer by what the search over the tokens comes to: it is refused if nothing is open or a pair with
    different names is remembered, and not otherwise. -/
theorem closingText_of_unclosedIn (hlimit : P.layout.maxVisits = 0) (b : Buffer) (p : Nat) :
    let r := P.unclosedIn {} ((P.tokenize b.text).filter (·.start < p)).reverse
    (r.1 = none → P.closingText b p = .error .noConstruct) ∧
      ∀ o, r.1 = some o →
        (∀ begun ended, r.2.mismatch = some (begun, ended) →
          P.closingText b p = .error (.mismatch begun.nameText ended.nameText ended.start)) ∧
        (r.2.mismatch = none → ∃ text, P.closingText b p = .ok text) := by
  obtain ⟨post, hcut⟩ := P.dialect.exists_cut b.text (min p b.size)
  rw [P.dialect.filter_start_min] at hcut
  have hgives := unclosedBefore_gives (P.scanner_sound b) {} hcut
  obtain ⟨hfound, -⟩ := hgives.of_unlimited (scanner_budget hlimit)
  intro r
  have hr : r = (_, _) := hfound.symm
  have hrole : ∀ o, r.1 = some o → o.kind.role = .opener := fun o ho => role_of_unclosedIn ho
  rw [hr] at hrole ⊢
  unfold closingText
  generalize P.unclosedBefore b P.scanner {} (min p b.size) = answer at hrole ⊢
  obtain ⟨found, w, s⟩ := answer
  constructor
  · rintro rfl
    rfl
  · rintro o rfl
    constructor
    · intro begun ended hm
      dsimp only at hm ⊢
      rw [hm]
    · intro hm
      have ho := hrole o rfl
      rw [TokenKind.role_eq] at ho
      dsimp only at hm ⊢
      rw [hm]
      dsimp only
      -- every kind of opener has its closing text
      cases hk : o.kind <;> rw [hk] at ho <;> first | exact ⟨_, rfl⟩ | cases ho

/-- Where a construct is open there is no other error than that of a pair remembered. -/
theorem closingText_of_open (hlimit : P.layout.maxVisits = 0) (b : Buffer) (p : Nat) :
    let r := P.unclosedIn {} ((P.tokenize b.text).filter (·.start < p)).reverse
    ∀ o, r.1 = some o →
      P.closingText b p ≠ .error .noConstruct ∧
      ((∃ text, P.closingText b p = .ok text) ↔ r.2.mismatch = none) ∧
      ∀ expected found start, P.closingText b p = .error (.mismatch expected found start) ↔
        ∃ pair : Pair, r.2.mismatch = some (pair.opener, pair.closer) ∧
          expected = pair.opener.nameText ∧ found = pair.closer.nameText ∧ start = pair.closer.start := by
  intro r o ho
  obtain ⟨hmismatch, hok⟩ := (closingText_of_unclosedIn hlimit b p).2 o ho
  cases hm : r.2.mismatch with
  | none =>
    obtain ⟨text, htext⟩ := hok hm
    rw [htext]
    refine ⟨nofun, iff_of_true ⟨text, rfl⟩ rfl, ?_⟩
    intro expected found start
    refine iff_of_false nofun ?_
    rintro ⟨pair, hpair, -⟩
    cases hpair
  | some m =>
    obtain ⟨begun, ended⟩ := m
    rw [hmismatch begun ended hm]
    refine ⟨nofun, iff_of_false nofun nofun, ?_⟩
    intro expected found start
    constructor
    · intro h
      cases h
      exact ⟨⟨begun, ended⟩, rfl, rfl, rfl, rfl⟩
    · rintro ⟨pair, hpair, rfl, rfl, rfl⟩
      obtain ⟨rfl, rfl⟩ := Prod.mk.inj (Option.some.inj hpair)
      rfl

/-- **Closing text is refused exactly when it should be.**  Without a bound on the searches, where the tokens
    before an offset are cleanly nested: the error that nothing is open is given if and only if nothing is.
    Otherwise there is an error if and only if the names of some pair differ that is closed before the offset
    but behind the innermost open construct, and it names, of these pairs, the one that is opened last. -/
theorem closingText_error_iff (P : Profile) (b : Buffer) (p : Nat) (hlimit : P.layout.maxVisits = 0)
    (hclean : P.CleanlyNested ((P.tokenize b.text).filter (·.start < p))) :
    (P.closingText b p = .error .noConstruct ↔ P.context b p = []) ∧
    ∀ c, (P.context b p).getLast? = some c →
      let late := (parse ((P.tokenize b.text).filter (·.start < p))).mismatchesAfter P c.start
      ((∃ text, P.closingText b p = .ok text) ↔ late = []) ∧
      ((∃ expected found start, P.closingText b p = .error (.mismatch expected found start)) ↔ late ≠ []) ∧
      ∀ expected found start, P.closingText b p = .error (.mismatch expected found start) ↔
        ∃ r ∈ late, (∀ r' ∈ late, r'.opener.start ≤ r.opener.start) ∧
          expected = r.opener.nameText ∧ found = r.closer.nameText ∧ start = r.closer.start := by
  have hnothing := (closingText_of_unclosedIn hlimit b p).1
  have hsomething := closingText_of_open hlimit b p
  have hcontext : P.context b p = (P.allUnclosedIn {} []
      ((P.tokenize b.text).filter (·.start < p)).reverse).map Token.construct := context_eq_in hlimit p
  have hstarts : ((P.tokenize b.text).filter (·.start < p)).Pairwise fun x y => x.start < y.start :=
    (P.tokenize_starts b.text).filter _
  generalize (P.tokenize b.text).filter (·.start < p) = ts at hclean hnothing hsomething hcontext hstarts ⊢
  have hrev : P.CleanlyNested (ts.reverse.reverse ++ []) := by rwa [List.reverse_reverse, List.append_nil]
  have hfirst := unclosedIn_nested hrev
  rw [List.reverse_reverse] at hrev hfirst
  rw [allUnclosedIn_eq_stack hrev] at hcontext
  cases hstack : (parse ts).stack with
  | nil =>
    rw [hstack] at hfirst hcontext
    refine ⟨iff_of_true (hnothing hfirst) hcontext, ?_⟩
    intro c hc
    rw [hcontext] at hc
    cases hc
  | cons o below =>
    have hsome := mismatch_eq_some_iff hclean hstarts hstack
    have hnone := mismatch_eq_none_iff hclean hstarts hstack
    rw [hstack] at hfirst hcontext
    rw [List.reverse_cons, List.map_append, List.map_singleton] at hcontext
    obtain ⟨hopen, hok, herror⟩ := hsomething o hfirst
    refine ⟨iff_of_false hopen (by simp [hcontext]), ?_⟩
    intro c hc late
    obtain rfl : o.construct = c := by
      rw [hcontext, List.getLast?_concat] at hc
      exact Option.some.inj hc
    refine ⟨hok.trans hnone, ?_, ?_⟩
    · refine Iff.trans ?_ (not_iff_not.2 hnone)
      constructor
      · rintro ⟨expected, found, start, h⟩
        obtain ⟨r, hr, -⟩ := (herror expected found start).1 h
        rw [hr]
        exact Option.some_ne_none _
      · intro h
        obtain ⟨⟨begun, ended⟩, hm⟩ := Option.ne_none_iff_exists'.1 h
        exact ⟨_, _, _, (herror _ _ _).2 ⟨⟨begun, ended⟩, hm, rfl, rfl, rfl⟩⟩
    · intro expected found start
      rw [herror]
      simp only [hsome, and_assoc]
      rfl

/-- Two pairs with different names in an open loop: the one named is the inner one, which is opened last but
    closed first.  The pair before the loop does not count. -/
theorem closingText_error_iff_inner :
    let P : Profile := { layout := { maxVisits := 0 } }
    let b := Buffer.ofText "begin x\nend y\nwhile 1\nbegin a\nbegin b\nend c\nend d\n".toList
    P.closingText b 51 = .error (.mismatch "b".toList "c".toList 38) := by
  intro P b
  let ts := (P.tokenize b.text).filter (·.start < 51)
  let inner : Pair := ⟨⟨.beginBlock, 30, 37, some ⟨36, "b".toList⟩⟩, ⟨.endThing, 38, 43, some ⟨42, "c".toList⟩⟩⟩
  -- one evaluation for all facts, as each one works out the table of blocks
  have hrun : P.CleanlyNested ts ∧ (P.context b 51).getLast? = some ⟨.whileLoop, 14⟩ ∧
      inner ∈ (parse ts).mismatchesAfter P 14 ∧
      ∀ r ∈ (parse ts).mismatchesAfter P 14, r.opener.start ≤ 30 := by
    decide +kernel
  obtain ⟨hclean, hcontext, hinner, hlast⟩ := hrun
  obtain ⟨-, hopen⟩ := closingText_error_iff P b 51 rfl hclean
  exact ((hopen _ hcontext).2.2 _ _ _).2 ⟨inner, hinner, hlast, rfl, rfl, rfl⟩

end Profile

end BlockScript
