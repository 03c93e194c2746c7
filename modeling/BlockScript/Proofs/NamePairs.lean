/-
  The report on names and the matcher.

  The report reads all tokens once with a stack of open constructs.  A closer takes the topmost construct
  that accepts it, and constructs above that one are dropped (`readAny`).  The matcher starts at one
  opener and keeps a stack of what it meets from there on.  As long as the opener is open the two stacks
  agree down to it, so both find the same closer; but the matcher does not know of the constructs around
  its opener, and when a closer ends one of them it takes that closer for a stray and goes on.

  Hence a pair is read if and only if the search ahead from its opener finds its closer and the opener is
  still open there (`mem_pairs_foldl_iff`), and of these pairs the report lists the ones whose names
  differ.  In a cleanly nested script nothing is dropped and the two agree; where constructs cross, the
  matcher finds pairs that the report does not list.
-/
import BlockScript.Nesting.Names
import BlockScript.Proofs.FullParse
import Mathlib.Data.List.Nodup

namespace BlockScript

/-! ## Reading tokens that need not nest -/

namespace Parse

/-- The parse after one more token of a script that need not be cleanly nested: a closer takes the
    topmost construct that accepts it, if any, and constructs above that one are dropped. -/
def readAny (P : Profile) (q : Parse) (t : Token) : Parse :=
  match t.roleAfter q.previous with
  | .opener => { q with previous := some t, stack := t :: q.stack }
  | .closer =>
    match popFirst (P.accepts · t) q.stack with
    | some (o, rest) => ⟨some t, rest, q.pairs ++ [⟨o, t⟩]⟩
    | none => { q with previous := some t }
  | _ => { q with previous := some t }

end Parse

/-- The parse of tokens that need not be cleanly nested. -/
def Profile.parseAny (P : Profile) (ts : List Token) : Parse := ts.foldl (Parse.readAny P) {}

theorem popFirst_append (f : Token → Bool) (xs ys : List Token) :
    popFirst f (xs ++ ys) = ((popFirst f xs).map fun r => (r.1, r.2 ++ ys)).or (popFirst f ys) := by
  induction xs with
  | nil => rfl
  | cons x xs ih =>
    rw [List.cons_append, popFirst, popFirst, ih]
    split <;> rfl

/-- **Taking from around an element `o`** of a stack: what is taken stands above `o`, or it is `o`, or it is
    what would be taken from below `o`. -/
theorem popFirst_around (f : Token → Bool) (above : List Token) (o : Token) :
    (∃ x rest, popFirst f above = some (x, rest) ∧
      ∀ below, popFirst f (above ++ o :: below) = some (x, rest ++ o :: below)) ∨
    (popFirst f above = none ∧ f o ∧ ∀ below, popFirst f (above ++ o :: below) = some (o, below)) ∨
    popFirst f above = none ∧ ¬f o ∧ ∀ below, popFirst f (above ++ o :: below) = popFirst f below := by
  simp only [popFirst_append]
  cases popFirst f above with
  | some r => exact .inl ⟨r.1, r.2, rfl, fun _ => rfl⟩
  | none =>
    by_cases ho : f o
    · exact .inr (.inl ⟨rfl, ho, fun below => by rw [popFirst_cons_of_pos ho]; rfl⟩)
    · exact .inr (.inr ⟨rfl, ho, fun below => by rw [popFirst_cons_of_neg ho]; rfl⟩)

namespace Parse

variable {P : Profile} {q : Parse} {t o c : Token} {ts post above below : List Token}

theorem readAny_previous (q : Parse) (t : Token) : (q.readAny P t).previous = some t := by
  unfold readAny
  split
  · rfl
  · split <;> rfl
  · rfl

theorem readAny_opener (h : t.roleAfter q.previous = .opener) :
    q.readAny P t = { q with previous := some t, stack := t :: q.stack } := by
  simp only [readAny, h]

theorem readAny_closer (h : t.roleAfter q.previous = .closer) :
    q.readAny P t = match popFirst (P.accepts · t) q.stack with
      | some (o, rest) => ⟨some t, rest, q.pairs ++ [⟨o, t⟩]⟩
      | none => { q with previous := some t } := by
  simp only [readAny, h]

theorem readAny_other (ho : t.roleAfter q.previous ≠ .opener) (hc : t.roleAfter q.previous ≠ .closer) :
    q.readAny P t = { q with previous := some t } := by
  unfold readAny
  split
  · exact absurd ‹_› ho
  · exact absurd ‹_› hc
  · rfl

theorem pairs_readAny (q : Parse) (t : Token) : ∃ new, (q.readAny P t).pairs = q.pairs ++ new := by
  unfold readAny
  split
  · exact ⟨[], by simp⟩
  · split
    · exact ⟨_, rfl⟩
    · exact ⟨[], by simp⟩
  · exact ⟨[], by simp⟩

theorem openers_readAny (q : Parse) (t : Token) : (q.readAny P t).openers.Subperm (t :: q.openers) := by
  unfold readAny
  split
  · exact .refl _
  · split
    · next o rest hpop =>
      -- of the stack down to the construct that is closed, only that construct is kept, in its pair
      obtain ⟨-, above, hs⟩ := popFirst_split hpop
      have hperm : (rest ++ (q.pairs.map (·.opener) ++ [o])).Perm (o :: rest ++ q.pairs.map (·.opener)) := by
        rw [← List.append_assoc]
        exact List.perm_append_comm
      have hsub : (o :: rest ++ q.pairs.map (·.opener)).Sublist
          (t :: (above ++ o :: rest ++ q.pairs.map (·.opener))) :=
        ((List.sublist_append_right above _).append_right _).cons t
      simp only [openers, hs, List.map_append, List.map_cons, List.map_nil]
      exact hperm.subperm.trans hsub.subperm
    · exact (List.sublist_cons_self ..).subperm
  · exact (List.sublist_cons_self ..).subperm

/-- A closer that ends a construct below `o` drops `o`, with all else above that construct. -/
theorem dropped_of_pop {r : Token × List Token} (hn : q.openers.Nodup)
    (hstack : q.stack = above ++ o :: below) (hc : t.roleAfter q.previous = .closer)
    (hpop : popFirst (P.accepts · t) (above ++ o :: below) = some r)
    (hbelow : popFirst (P.accepts · t) below = some r) : o ∉ (q.readAny P t).openers := by
  obtain ⟨x, rest⟩ := r
  obtain ⟨-, ys, rfl⟩ := popFirst_split hbelow
  rw [openers, hstack, List.append_assoc, List.cons_append] at hn
  have hnot := (List.nodup_cons.1 (List.nodup_append.1 hn).2.1).1
  rw [readAny_closer hc, hstack, hpop]
  show o ∉ rest ++ (q.pairs ++ [Pair.mk x t]).map Pair.opener
  intro ho
  rw [List.map_append, List.mem_append, List.mem_append] at ho
  rcases ho with h | h | h
  · exact hnot (List.mem_append_left _ (List.mem_append_right _ (List.mem_cons_of_mem _ h)))
  · exact hnot (List.mem_append_right _ h)
  · rw [List.mem_singleton.1 h] at hnot
    exact hnot (by simp)

/-- **What one token does to a construct `o` that is open**, with the constructs `above` it: it leaves it
    open, it closes it, or it drops it.  The search ahead from `o` sees the first two, and takes a token
    that drops `o` for a stray. -/
theorem readAny_cases (hn : q.openers.Nodup) (hstack : q.stack = above ++ o :: below) (t : Token) :
    (∃ above', (q.readAny P t).stack = above' ++ o :: below ∧
      ∀ ts, P.closerIn q.previous (above ++ [o]) (t :: ts) = P.closerIn (some t) (above' ++ [o]) ts) ∨
    ((q.readAny P t).pairs = q.pairs ++ [⟨o, t⟩] ∧
      ∀ ts, P.closerIn q.previous (above ++ [o]) (t :: ts) = some t) ∨
    (o ∉ (q.readAny P t).openers ∧
      ∀ ts, P.closerIn q.previous (above ++ [o]) (t :: ts) = P.closerIn (some t) (above ++ [o]) ts) := by
  by_cases hr : t.roleAfter q.previous = .opener
  · refine Or.inl ⟨t :: above, ?_, fun ts => ?_⟩
    · rw [readAny_opener hr, hstack]
      rfl
    · simp only [Profile.closerIn, hr]
      rfl
  by_cases hc : t.roleAfter q.previous = .closer
  · have hsearch := fun ts => P.closerIn_closer hc (above ++ [o]) ts
    rcases popFirst_around (P.accepts · t) above o with
      ⟨x, rest, -, htakes⟩ | ⟨-, -, htakes⟩ | ⟨-, -, hpasses⟩
    · -- a construct above `o` is closed
      rw [readAny_closer hc, hstack, htakes below]
      refine Or.inl ⟨rest, rfl, fun ts => ?_⟩
      rw [hsearch ts, htakes []]
      cases rest <;> rfl
    · rw [readAny_closer hc, hstack, htakes below]
      refine Or.inr (Or.inl ⟨rfl, fun ts => ?_⟩)
      rw [hsearch ts, htakes []]
    · have hgoes : ∀ ts, P.closerIn q.previous (above ++ [o]) (t :: ts) =
          P.closerIn (some t) (above ++ [o]) ts := by
        intro ts
        rw [hsearch ts, hpasses []]
        rfl
      cases hpop : popFirst (P.accepts · t) below with
      | none =>
        refine Or.inl ⟨above, ?_, hgoes⟩
        simp only [readAny_closer hc, hstack, hpasses below, hpop]
      | some r => exact Or.inr (Or.inr ⟨dropped_of_pop hn hstack hc ((hpasses below).trans hpop) hpop, hgoes⟩)
  · refine Or.inl ⟨above, ?_, fun ts => ?_⟩
    · rw [readAny_other hr hc, hstack]
    · rw [Profile.closerIn]
      split
      · exact absurd ‹_› hr
      · exact absurd ‹_› hc
      · rfl

/-! ## Pairs read and pairs found -/

/-- A closer that is found is one of the tokens searched. -/
theorem closerIn_mem {previous : Option Token} {pending : List Token}
    (h : P.closerIn previous pending ts = some c) : c ∈ ts := by
  induction ts generalizing previous pending with
  | nil => cases h
  | cons t ts ih =>
    rw [P.closerIn_ahead {}] at h
    rcases P.ahead_cases {} pending (t.roleAfter previous) t with ⟨hahead, -⟩ | ⟨pending', hahead, -⟩
    · rw [hahead] at h
      cases h
      exact List.mem_cons_self ..
    · rw [hahead] at h
      exact List.mem_cons_of_mem _ (ih h)

/-- Pairs of different openers: an opener has one closer. -/
theorem closer_unique {c' : Token} (hn : q.openers.Nodup) (h : ⟨o, c⟩ ∈ q.pairs)
    (h' : ⟨o, c'⟩ ∈ q.pairs) : c = c' := by
  have hinj := List.inj_on_of_nodup_map (List.nodup_append.1 hn).2.1 h h' rfl
  exact congrArg Pair.closer hinj

/-- A token that stands behind `t` is not `t`, so what is read up to it starts with `t`. -/
theorem exists_upTo_iff (ht : t ∉ post) (hc : c ∈ post) :
    (∃ mid later, t :: post = mid ++ c :: later ∧ o ∈ (mid.foldl (readAny P) q).stack) ↔
      ∃ mid later, post = mid ++ c :: later ∧ o ∈ (mid.foldl (readAny P) (q.readAny P t)).stack := by
  constructor
  · rintro ⟨mid, later, hsplit, hmid⟩
    cases mid with
    | nil =>
      obtain ⟨rfl, -⟩ := List.cons.inj hsplit
      exact absurd hc ht
    | cons x mid =>
      obtain ⟨rfl, rfl⟩ := List.cons.inj hsplit
      exact ⟨mid, later, rfl, hmid⟩
  · rintro ⟨mid, later, rfl, hmid⟩
    exact ⟨t :: mid, later, rfl, hmid⟩

/-- **A pair is read if and only if the search ahead finds it and its opener is still open there.**  Here
    the opener is open, with the constructs `above` it, and the tokens `post` are still to read. -/
theorem mem_pairs_foldl_iff (hn : (post ++ q.openers).Nodup) (hstack : q.stack = above ++ o :: below) :
    ⟨o, c⟩ ∈ (post.foldl (readAny P) q).pairs ↔
      P.closerIn q.previous (above ++ [o]) post = some c ∧
        ∃ mid later, post = mid ++ c :: later ∧ o ∈ (mid.foldl (readAny P) q).stack := by
  have hopen : o ∈ q.stack := by simp [hstack]
  induction post generalizing q above with
  | nil =>
    -- what is open has no pair, and nothing is left to find
    have hnone : ⟨o, c⟩ ∉ q.pairs := by
      intro hpair
      rw [List.nil_append] at hn
      exact (List.nodup_append.1 hn).2.2 o hopen o (List.mem_map_of_mem hpair) rfl
    simp [hnone, Profile.closerIn]
  | cons t post ih =>
    have hn' := nodup_step (openers_readAny (P := P)) hn
    rw [List.cons_append] at hn
    obtain ⟨ht, hpost⟩ := List.nodup_cons.1 hn
    have hbehind := exists_upTo_iff (P := P) (q := q) (o := o) (c := c) fun h => ht (List.mem_append_left _ h)
    rw [List.foldl_cons]
    rcases readAny_cases (P := P) (List.nodup_append.1 hpost).2.1 hstack t with
      ⟨above', hs, hgoes⟩ | ⟨hpairs, hfound⟩ | ⟨hdropped, hgoes⟩
    · have hrest := ih hn' hs (by simp [hs])
      rw [readAny_previous] at hrest
      rw [hgoes post]
      exact hrest.trans (and_congr_right fun hfound => (hbehind (closerIn_mem hfound)).symm)
    · -- `t` closes `o`, and no other closer does
      have hfinal : (post.foldl (readAny P) (q.readAny P t)).openers.Nodup := by
        have hnil : (post ++ ([] ++ (q.readAny P t).openers)).Nodup := hn'
        exact nodup_foldl openers_readAny hnil
      have hpair : ⟨o, t⟩ ∈ (post.foldl (readAny P) (q.readAny P t)).pairs := by
        obtain ⟨more, hmore⟩ := exists_pairs (pairs_readAny (P := P)) (q.readAny P t) post
        rw [hmore, hpairs]
        simp
      rw [hfound post]
      constructor
      · intro h
        obtain rfl := closer_unique hfinal hpair h
        exact ⟨rfl, [], post, rfl, hopen⟩
      · rintro ⟨h, -⟩
        obtain rfl := Option.some.inj h
        exact hpair
    · -- `o` is met no more
      have hgone : ∀ mid later, post = mid ++ later →
          o ∉ (mid.foldl (readAny P) (q.readAny P t)).openers := by
        rintro mid later rfl hmid
        rcases mem_openers_foldl openers_readAny hmid with h | h
        · have hmem : o ∈ mid ++ later := List.mem_append_left _ h
          exact (List.nodup_append.1 hpost).2.2 o hmem o (List.mem_append_left _ hopen) rfl
        · exact hdropped h
      rw [hgoes post]
      constructor
      · intro h
        exact absurd (List.mem_append_right _ (List.mem_map_of_mem h)) (hgone post [] (by simp))
      · rintro ⟨hfound, hsplit⟩
        obtain ⟨mid, later, rfl, hmid⟩ := (hbehind (closerIn_mem hfound)).1 hsplit
        exact absurd (List.mem_append_left _ hmid) (hgone mid _ rfl)

/-- In a cleanly nested script nothing is dropped: the parse is the one that pops the top. -/
theorem foldl_readAny_eq (h : q.Nests P ts) : ts.foldl (readAny P) q = ts.foldl read q := by
  induction ts generalizing q with
  | nil => rfl
  | cons t ts ih =>
    have hstep : q.readAny P t = q.read t := by
      rcases read_cases h with ⟨hr, hread⟩ | ⟨hr, o, stack, hs, hacc, hread⟩ | ⟨ho, hc, hread⟩
      · rw [hread, readAny_opener hr]
      · have hpop : popFirst (P.accepts · t) (o :: stack) = some (o, stack) :=
          popFirst_cons_of_pos (f := (P.accepts · t)) hacc stack
        rw [hread, readAny_closer hr, hs, hpop]
      · rw [hread, readAny_other ho hc]
    rw [List.foldl_cons, List.foldl_cons, hstep]
    exact ih h.2

end Parse

/-! ## The report -/

namespace Profile

variable {P : Profile} {t : Text} {b e : Token}

/-- Whether the names of a pair differ. -/
def differs (P : Profile) (r : Pair) : Bool := P.namesDiffer r.opener r.closer

theorem elim_kind_eq_elseLine (previous : Option Token) :
    previous.elim .edge Token.kind = TokenKind.elseLine ↔ previous.any (·.kind = .elseLine) = true := by
  cases previous with
  | none => simp
  | some y => simp

/-- One step of the report, by the role of the token met. -/
theorem mismatchesFrom_cons (P : Profile) (previous : Option Token) (pending : List Token) (x : Token)
    (ts : List Token) :
    P.mismatchesFrom (previous.elim .edge Token.kind) pending (x :: ts) =
      match x.roleAfter previous with
      | .opener => P.mismatchesFrom x.kind (x :: pending) ts
      | .closer =>
        match popFirst (P.accepts · x) pending with
        | some (o, rest) => [⟨o, x⟩].filter P.differs ++ P.mismatchesFrom x.kind rest ts
        | none => P.mismatchesFrom x.kind pending ts
      | _ => P.mismatchesFrom x.kind pending ts := by
  have hprevious := elim_kind_eq_elseLine previous
  by_cases hcont : x.kind = .ifBlock ∧ previous.any (·.kind = .elseLine) = true
  · rw [show x.roleAfter previous = .inner from if_pos hcont]
    rw [mismatchesFrom, if_pos ⟨hcont.1, hprevious.2 hcont.2⟩]
  · rw [show x.roleAfter previous = x.kind.role from if_neg hcont]
    rw [mismatchesFrom, if_neg fun h => hcont ⟨h.1, hprevious.1 h.2⟩]
    cases x.kind.role with
    | opener => rfl
    | inner => rfl
    | neutral => rfl
    | closer =>
      dsimp only
      cases popFirst (P.accepts · x) pending with
      | none => rfl
      | some r =>
        dsimp only
        by_cases hd : P.differs ⟨r.1, x⟩ = true
        · rw [List.filter_cons_of_pos hd]
          exact if_pos hd
        · rw [List.filter_cons_of_neg hd]
          exact if_neg hd

/-- The pairs read whose names differ are those before and those reported from there on. -/
theorem filter_pairs_foldl (P : Profile) (ts : List Token) (q : Parse) :
    (ts.foldl (Parse.readAny P) q).pairs.filter P.differs =
      q.pairs.filter P.differs ++
        P.mismatchesFrom (q.previous.elim .edge Token.kind) q.stack ts := by
  induction ts generalizing q with
  | nil => exact (List.append_nil _).symm
  | cons x ts ih =>
    rw [List.foldl_cons, ih, mismatchesFrom_cons, Parse.readAny_previous, Option.elim_some]
    cases hr : x.roleAfter q.previous with
    | opener => rw [Parse.readAny_opener hr]
    | inner => rw [Parse.readAny_other (by simp [hr]) (by simp [hr])]
    | neutral => rw [Parse.readAny_other (by simp [hr]) (by simp [hr])]
    | closer =>
      rw [Parse.readAny_closer hr]
      cases hpop : popFirst (P.accepts · x) q.stack with
      | none => rfl
      | some r =>
        dsimp only
        rw [List.filter_append, List.append_assoc]

/-- The report lists the pairs read whose names differ. -/
theorem mem_nameMismatches :
    ⟨b, e⟩ ∈ P.nameMismatches t ↔ ⟨b, e⟩ ∈ (P.parseAny (P.tokenize t)).pairs ∧ P.namesDiffer b e := by
  have h : (P.parseAny (P.tokenize t)).pairs.filter P.differs = P.nameMismatches t :=
    filter_pairs_foldl P (P.tokenize t) {}
  rw [← h, List.mem_filter]
  rfl

/-- The tokens that start before a token are those in front of it. -/
theorem filter_start_lt {x : Token} {pre post : List Token} (h : P.tokenize t = pre ++ x :: post) :
    (P.tokenize t).filter (·.start < x.start) = pre := by
  obtain ⟨hpre, hx, hpost⟩ := P.dialect.tokenize_apart h
  rw [h, List.filter_append, List.filter_eq_self.2, List.filter_eq_nil_iff.2, List.append_nil]
  · intro y hy
    rcases List.mem_cons.1 hy with rfl | hy
    · simp
    · have := hpost y hy
      rw [decide_eq_true_iff]
      omega
  · intro y hy
    have := hpre y hy
    rw [decide_eq_true_iff]
    omega

/-- A `begin` opens a construct wherever it stands. -/
theorem roleAfter_of_namesDiffer (h : P.namesDiffer b e) (previous : Option Token) :
    b.roleAfter previous = .opener := by
  have hk : b.kind = .beginBlock := by
    rw [namesDiffer, Bool.and_assoc, Bool.and_eq_true] at h
    exact of_decide_eq_true h.1
  rw [Token.roleAfter, if_neg (by simp [hk]), hk, TokenKind.role_eq]

theorem parseAny_snoc (ts : List Token) (x : Token) :
    P.parseAny (ts ++ [x]) = (P.parseAny ts).readAny P x := by
  simp only [parseAny, List.foldl_append, List.foldl_cons, List.foldl_nil]

theorem parseAny_previous (ts : List Token) : (P.parseAny ts).previous = ts.getLast? := by
  rcases List.eq_nil_or_concat' ts with rfl | ⟨xs, x, rfl⟩
  · rfl
  · rw [parseAny_snoc, Parse.readAny_previous, List.getLast?_concat]

/-- The pairs read, by the search ahead from their openers. -/
theorem mem_pairs_parseAny {pre post : List Token} (h : P.tokenize t = pre ++ b :: post)
    (hr : b.roleAfter pre.getLast? = .opener) :
    ⟨b, e⟩ ∈ (P.parseAny (P.tokenize t)).pairs ↔
      P.closerIn (some b) [b] post = some e ∧
        b ∈ (P.parseAny ((P.tokenize t).filter (·.start < e.start))).stack := by
  have hafter : ∀ mid, P.parseAny (pre ++ b :: mid) =
      mid.foldl (Parse.readAny P) (P.parseAny (pre ++ [b])) := by
    intro mid
    rw [List.append_cons, parseAny, List.foldl_append]
    rfl
  have hstack : (P.parseAny (pre ++ [b])).stack = [] ++ b :: (P.parseAny pre).stack := by
    rw [parseAny_snoc, Parse.readAny_opener (by rwa [parseAny_previous])]
    rfl
  have hn : (post ++ (P.parseAny (pre ++ [b])).openers).Nodup := by
    refine Parse.nodup_foldl Parse.openers_readAny ?_
    have := (P.dialect.tokenize_laid t).nodup
    rw [show P.dialect.tokenize t = _ from h, List.append_cons] at this
    simpa [Parse.openers] using this
  have hiff := Parse.mem_pairs_foldl_iff (P := P) (c := e) hn hstack
  rw [parseAny_previous, List.getLast?_concat, ← hafter, ← h, List.nil_append] at hiff
  refine hiff.trans (and_congr_right fun hfound => ?_)
  constructor
  · rintro ⟨mid, later, rfl, hopen⟩
    have hsplit : P.tokenize t = (pre ++ b :: mid) ++ e :: later := by simp [h]
    rwa [filter_start_lt hsplit, hafter]
  · intro hopen
    obtain ⟨mid, later, rfl⟩ := List.append_of_mem (Parse.closerIn_mem hfound)
    have hsplit : P.tokenize t = (pre ++ b :: mid) ++ e :: later := by simp [h]
    rw [filter_start_lt hsplit, hafter] at hopen
    exact ⟨mid, later, rfl, hopen⟩

/-- **The report and the matcher.**  Without a bound on the searches, a `begin` and an `end` are listed if
    and only if the matcher finds that pair at the `begin`, their names differ, and the `begin` is still
    open where the `end` stands: no closer in between has ended a construct around it.  In a cleanly
    nested script the last condition always holds. -/
theorem mem_nameMismatches_iff (P : Profile) (t : Text) (hlimit : P.layout.maxVisits = 0) (b e : Token)
    (hb : b ∈ P.tokenize t) :
    (⟨b, e⟩ ∈ P.nameMismatches t ↔
      P.findMatch (Buffer.ofText t) b.start = some ⟨b, e⟩ ∧ P.namesDiffer b e ∧
        b ∈ (P.parseAny ((P.tokenize t).filter (·.start < e.start))).stack) ∧
    (P.CleanlyNested (P.tokenize t) →
      (⟨b, e⟩ ∈ P.nameMismatches t ↔
        P.findMatch (Buffer.ofText t) b.start = some ⟨b, e⟩ ∧ P.namesDiffer b e)) := by
  obtain ⟨pre, post, htokens⟩ := List.append_of_mem hb
  have hgap : P.dialect.Gap t b.start pre.reverse (b :: post) :=
    .of_start (by rw [List.reverse_reverse]; exact htokens)
  have hfind : P.findMatch (Buffer.ofText t) b.start = P.matchIn pre.reverse b post :=
    findMatch_eq_in hlimit hgap
  rw [mem_nameMismatches, hfind]
  by_cases hd : P.namesDiffer b e
  · have hrole := roleAfter_of_namesDiffer hd pre.getLast?
    have hrole' : b.roleAfter pre.reverse.head? = .opener := by rwa [List.head?_reverse]
    have hmatch : P.matchIn pre.reverse b post = some ⟨b, e⟩ ↔ P.closerIn (some b) [b] post = some e := by
      rw [matchIn_opener hrole']
      simp
    have hpair : ⟨b, e⟩ ∈ (P.parseAny (P.tokenize t)).pairs ↔ P.matchIn pre.reverse b post = some ⟨b, e⟩ ∧
        b ∈ (P.parseAny ((P.tokenize t).filter (·.start < e.start))).stack := by
      rw [mem_pairs_parseAny htokens hrole, hmatch]
    simp only [hd, true_and, and_true]
    refine ⟨hpair, fun hclean => ⟨fun h => (hpair.1 h).1, fun h => ?_⟩⟩
    have hparse : P.parseAny (P.tokenize t) = parse (P.tokenize t) := Parse.foldl_readAny_eq hclean
    have hn := (P.dialect.tokenize_laid t).nodup
    have htokens' : P.tokenize t = pre.reverse.reverse ++ b :: post := by rw [List.reverse_reverse, htokens]
    rw [show P.dialect.tokenize t = _ from htokens'] at hn
    rw [htokens'] at hclean
    rw [matchIn_opener_eq hclean hn hrole', ← htokens'] at h
    rw [hparse]
    exact List.mem_of_find?_eq_some h
  · simp [hd]

/-- Two blocks and a condition with an `else if`; the inner block ends with another name. -/
theorem mem_nameMismatches_iff_inner :
    let P : Profile := { layout := { maxVisits := 0 } }
    let t : Text := "begin out\nif x then\nelse if y then\nbegin in\nend it\nend if\nend out\n".toList
    let b : Token := ⟨.beginBlock, 35, 43, some ⟨41, "in".toList⟩⟩
    let e : Token := ⟨.endThing, 44, 50, some ⟨48, "it".toList⟩⟩
    b ∈ P.tokenize t ∧ P.CleanlyNested (P.tokenize t) ∧ ⟨b, e⟩ ∈ P.nameMismatches t ∧
      P.findMatch (Buffer.ofText t) 35 = some ⟨b, e⟩ ∧ P.namesDiffer b e := by
  intro P t b e
  have hrun : b ∈ P.tokenize t ∧ P.CleanlyNested (P.tokenize t) ∧ ⟨b, e⟩ ∈ P.nameMismatches t := by
    decide +kernel
  obtain ⟨hb, hclean, hlisted⟩ := hrun
  exact ⟨hb, hclean, hlisted, ((mem_nameMismatches_iff P t rfl b e hb).2 hclean).1 hlisted⟩

/-- Crossing constructs: the `next` ends the loop around the `begin`, which the report drops; the matcher,
    starting at the `begin`, passes over the `next` and finds the `end`. -/
theorem crossing_pair_not_listed :
    let P : Profile := { layout := { maxVisits := 0 } }
    let t : Text := "while x\nbegin a\nnext\nend b\n".toList
    let b : Token := ⟨.beginBlock, 8, 15, some ⟨14, "a".toList⟩⟩
    let e : Token := ⟨.endThing, 21, 26, some ⟨25, "b".toList⟩⟩
    b ∈ P.tokenize t ∧ e ∈ P.tokenize t ∧ P.nameMismatches t = [] ∧
      P.findMatch (Buffer.ofText t) 8 = some ⟨b, e⟩ ∧ P.findMatch (Buffer.ofText t) 21 = some ⟨b, e⟩ ∧
      P.namesDiffer b e := by
  decide +kernel

end Profile

end BlockScript
