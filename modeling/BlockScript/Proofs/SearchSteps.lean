/-
  Searches, step by step.

  Every search of a partner takes one step again and again until a step gives its answer (`Search`).  Two
  searches whose steps lead from related states to related ones give related answers (`Search.simulates`):
  this is the one induction over the way of a search.  Most often one of them is the image of the other
  (`Search.run_map_of`).  The looks of the scanner, which go on from line to line, are searches too.

  A `Mirror` sees the tokens and scanners over one buffer as tokens and scanners over another, such that looks
  back and ahead agree.  Then all searches agree (`Mirror.unclosedBefore`, `Mirror.allUnclosedBefore`,
  `Mirror.openerBefore`, `Mirror.closerAfter`, `Mirror.isFlatElse`), and so does what is put together from
  them (`Mirror.alignedWith`).
-/
import BlockScript.Proofs.TokenSearch

namespace BlockScript

/-! ## Steps and runs -/

/-- A search: it takes `step` until that gives an answer, and each step on the way brings `rank` down. -/
structure Search (σ β : Type) where
  step : σ → σ ⊕ β
  run : σ → β
  rank : σ → Nat
  run_eq : ∀ s, run s = (step s).elim run id
  rank_lt : ∀ {s t}, step s = .inl t → rank t < rank s

namespace Search

variable {σ σ' β β' : Type} (F : Search σ β) {step' : σ' → σ' ⊕ β'} {run' : σ' → β'}

/-- **Steps that keep to related states end in related answers.** -/
theorem simulates (hrun : ∀ s, run' s = (step' s).elim run' id) {R : σ → σ' → Prop} {Q : β → β' → Prop}
    (hstep : ∀ s s', R s s' → Sum.LiftRel R Q (F.step s) (step' s')) {s : σ} {s' : σ'} (h : R s s') :
    Q (F.run s) (run' s') := by
  induction hn : F.rank s using Nat.strongRecOn generalizing s s' with
  | _ n ih =>
    have hrel := hstep s s' h
    rw [F.run_eq, hrun]
    generalize hs : F.step s = r, step' s' = r' at hrel
    cases hrel with
    | inr hq => exact hq
    | inl ht => exact ih _ (hn ▸ F.rank_lt hs) ht rfl

/-- **A search whose steps are those of another, mapped, runs as the other does.**  The steps need to be so
    for states with `I` only if they keep it; answers then have `J`. -/
theorem run_map_of (hrun : ∀ s, run' s = (step' s).elim run' id) {f : σ → σ'} {g : β → β'} {I : σ → Prop}
    {J : β → Prop} (hstep : ∀ s, I s → step' (f s) = (F.step s).map f g ∧ (F.step s).elim I J) {s : σ}
    (hs : I s) : run' (f s) = g (F.run s) ∧ J (F.run s) := by
  refine F.simulates hrun (R := fun s s' => s' = f s ∧ I s) (Q := fun r r' => r' = g r ∧ J r) ?_ ⟨rfl, hs⟩
  rintro s _ ⟨rfl, hs⟩
  obtain ⟨hmap, hkeeps⟩ := hstep s hs
  rw [hmap]
  generalize F.step s = r at hkeeps
  cases r with
  | inl t => exact .inl ⟨rfl, hkeeps⟩
  | inr r => exact .inr ⟨rfl, hkeeps⟩

theorem run_map (hrun : ∀ s, run' s = (step' s).elim run' id) {f : σ → σ'} {g : β → β'}
    (hstep : ∀ s, step' (f s) = (F.step s).map f g) (s : σ) : run' (f s) = g (F.run s) := by
  refine (F.run_map_of hrun (I := fun _ => True) (J := fun _ => True) (fun s _ => ⟨hstep s, ?_⟩) trivial).1
  cases F.step s <;> trivial

/-- What every step keeps holds of the answer. -/
theorem keeps {I : σ → Prop} {J : β → Prop} (hstep : ∀ s, I s → (F.step s).elim I J) {s : σ} (hs : I s) :
    J (F.run s) := by
  refine (F.run_map_of F.run_eq (f := id) (g := id) (fun s hs => ⟨?_, hstep s hs⟩) hs).2
  rw [Sum.map_id_id]
  rfl

end Search

theorem exists_of_elim_eq_inl {σ β γ : Type} {o : Option γ} {r : β} {f : γ → σ ⊕ β} {t : σ}
    (h : o.elim (.inr r) f = .inl t) : ∃ m, o = some m ∧ f m = .inl t := by
  cases o with
  | none => cases h
  | some m => exact ⟨m, rfl, h⟩

/-! ## Looks back and ahead -/

namespace Scanner

/-- Where a look ahead from offset `p` goes on at the line found there. -/
def aheadTurn (p : Nat) (found : TokenLine × Scanner) : (Scanner × Nat) ⊕ (Token × Scanner) :=
  (found.1.tokens.find? (p < ·.stop)).elim (.inl (found.2, found.1.stop)) fun t => .inr (t, found.2)

/-- Where a look back from offset `p` goes on at the line found before it. -/
def behindTurn (p : Nat) (found : TokenLine × Scanner) : (Scanner × Nat) ⊕ (Token × Scanner) :=
  (found.1.tokens.reverse.find? (·.start < p)).elim (.inl (found.2, found.1.start)) fun t => .inr (t, found.2)

variable (d : Dialect) (b : Buffer)

/-- The look ahead, line by line. -/
def nextSearch : Search (Scanner × Nat) (Token × Scanner) where
  step s :=
    if s.2 < b.size then
      if s.1.visit.exhausted then .inr (Token.edgeAt s.2, s.1.visit)
      else aheadTurn s.2 (s.1.visit.lineAt d b s.2)
    else .inr (Token.edgeAt b.size, s.1)
  run s := s.1.next d b s.2
  rank s := b.size - s.2
  run_eq s := by
    rw [next]
    split
    · split
      · rfl
      · dsimp only [aheadTurn]
        cases (s.1.visit.lineAt d b s.2).1.tokens.find? (s.2 < ·.stop) <;> rfl
    · rfl
  rank_lt {s t} h := by
    split at h
    · next hp =>
      have hlt := s.1.visit.lineAt_lt_stop d hp
      rw [aheadTurn] at h
      split at h
      · cases h
      · cases hfind : (s.1.visit.lineAt d b s.2).1.tokens.find? (s.2 < ·.stop) with
        | none =>
          rw [hfind] at h
          cases h
          dsimp only
          omega
        | some x =>
          rw [hfind] at h
          cases h
    · cases h

/-- The look back, line by line. -/
def prevSearch : Search (Scanner × Nat) (Token × Scanner) where
  step s :=
    if s.2 = 0 then .inr (Token.edgeAt 0, s.1)
    else if s.1.visit.exhausted then .inr (Token.edgeAt s.2, s.1.visit)
    else behindTurn s.2 (s.1.visit.lineAt d b (s.2 - 1))
  run s := s.1.prevWithin d b s.2
  rank s := s.2
  run_eq s := by
    rw [prevWithin]
    split
    · rfl
    · split
      · rfl
      · dsimp only [behindTurn]
        cases (s.1.visit.lineAt d b (s.2 - 1)).1.tokens.reverse.find? (·.start < s.2) <;> rfl
  rank_lt {s t} h := by
    split at h
    · cases h
    · have hle := s.1.visit.lineAt_start_le d b (s.2 - 1)
      rw [behindTurn] at h
      split at h
      · cases h
      · cases hfind : (s.1.visit.lineAt d b (s.2 - 1)).1.tokens.reverse.find? (·.start < s.2) with
        | none =>
          rw [hfind] at h
          cases h
          dsimp only
          omega
        | some x =>
          rw [hfind] at h
          cases h

end Scanner

/-! ## The searches -/

namespace Profile

/-- Where skipping separators goes on at the token reached. -/
def separatorTurn (r : Token × Scanner) : (Scanner × Nat) ⊕ (Token × Scanner) :=
  if r.1.kind = .separator then .inl (r.2, r.1.start) else .inr r

/-- Where the search for the start of a statement goes on at the token reached, `first` being the first token
    of the statement so far. -/
def statementTurn (first : Token) (r : Token × Scanner) : (Scanner × Token × Nat) ⊕ (Token × Scanner) :=
  if r.1.kind = .edge ∨ r.1.kind = .separator then .inr (first, r.2) else .inl (r.2, r.1, r.1.start)

/-- Where the search for an unclosed opener goes on after a step back. -/
def unclosedTurn (w : Walk) (r : Scanner × Option (Token × Walk × Bool)) :
    (Scanner × Walk × Nat) ⊕ (Option Token × Walk × Scanner) :=
  r.2.elim (.inr (none, w, r.1)) fun m =>
    if m.2.2 then .inr (some m.1, m.2.1, r.1) else .inl (r.1, m.2.1, m.1.start)

/-- Where the search for all unclosed openers goes on after a step back. -/
def allUnclosedTurn (inner : List Token) (r : Scanner × Option (Token × Walk × Bool)) :
    (Scanner × Walk × Nat × List Token) ⊕ List Token :=
  r.2.elim (.inr inner) fun m =>
    .inl (r.1, m.2.1, m.1.start, if m.2.2 then m.1 :: inner else inner)

/-- Where the search for the opener that takes the bottom of the waiting closers goes on after a step
    back. -/
def openerTurn (r : Scanner × Option (Token × Walk × Bool)) :
    (Scanner × Walk × Nat) ⊕ (Option Token × Scanner) :=
  r.2.elim (.inr (none, r.1)) fun m =>
    if m.2.1.pending.isEmpty then .inr (some m.1, r.1) else .inl (r.1, m.2.1, m.1.start)

variable (P : Profile) (b : Buffer)

/-- A step back: the token before offset `p`, unless it is an edge, met in its role. -/
def back (s : Scanner) (w : Walk) (p : Nat) : Scanner × Option (Token × Walk × Bool) :=
  let r := s.prev P.dialect b p
  if r.1.kind = .edge then (r.2, none)
  else
    let q := P.roleInContext b r.2 r.1
    (q.2, some (r.1, P.meet w q.1 r.1))

variable {P b}

/-- What is made of a step back is made of the edge, or of the token before. -/
theorem back_apply {γ : Sort _} (f : Scanner × Option (Token × Walk × Bool) → γ) (s : Scanner) (w : Walk)
    (p : Nat) :
    f (P.back b s w p) =
      let r := s.prev P.dialect b p
      let q := P.roleInContext b r.2 r.1
      if r.1.kind = .edge then f (r.2, none) else f (q.2, some (r.1, P.meet w q.1 r.1)) :=
  apply_ite f _ _ _

theorem start_lt_of_back {s : Scanner} {w : Walk} {p : Nat} {m : Token × Walk × Bool}
    (h : (P.back b s w p).2 = some m) : m.1.start < p := by
  rw [back_apply Prod.snd] at h
  dsimp only at h
  split at h
  · cases h
  · next hk =>
    cases h
    exact s.start_lt_of_prev P.dialect b p hk

variable (P b)

/-- Skipping separators. -/
def separatorSearch : Search (Scanner × Nat) (Token × Scanner) where
  step s := separatorTurn (s.1.prev P.dialect b s.2)
  run s := P.skipSeparators b s.1 s.2
  rank s := s.2
  run_eq s := by
    rw [skipSeparators_eq, separatorTurn, apply_ite (Sum.elim _ id)]
    rfl
  rank_lt {s t} h := by
    rw [separatorTurn] at h
    split at h
    · next hk =>
      cases h
      exact s.1.start_lt_of_prev P.dialect b s.2 (by rw [hk]; decide)
    · cases h

/-- The search for the start of a statement. -/
def statementSearch : Search (Scanner × Token × Nat) (Token × Scanner) where
  step s := statementTurn s.2.1 (s.1.prev P.dialect b s.2.2)
  run s := P.statementStart b s.1 s.2.1 s.2.2
  rank s := s.2.2
  run_eq s := by
    rw [statementStart_eq, statementTurn, apply_ite (Sum.elim _ id)]
    rfl
  rank_lt {s t} h := by
    rw [statementTurn] at h
    split at h
    · cases h
    · next hk =>
      cases h
      exact s.1.start_lt_of_prev P.dialect b s.2.2 (not_or.1 hk).1

/-- The search for an unclosed opener. -/
def unclosedSearch : Search (Scanner × Walk × Nat) (Option Token × Walk × Scanner) where
  step s := unclosedTurn s.2.1 (P.back b s.1 s.2.1 s.2.2)
  run s := P.unclosedBefore b s.1 s.2.1 s.2.2
  rank s := s.2.2
  run_eq s := by
    rw [unclosedBefore_eq, back_apply fun r => (unclosedTurn s.2.1 r).elim _ id]
    dsimp only [unclosedTurn, Option.elim_some]
    rw [apply_ite (Sum.elim _ id)]
    rfl
  rank_lt {s t} h := by
    obtain ⟨m, hm, hgo⟩ := exists_of_elim_eq_inl h
    split at hgo
    · cases hgo
    · cases hgo
      exact start_lt_of_back hm

/-- The search for all unclosed openers. -/
def allUnclosedSearch : Search (Scanner × Walk × Nat × List Token) (List Token) where
  step s := allUnclosedTurn s.2.2.2 (P.back b s.1 s.2.1 s.2.2.1)
  run s := P.allUnclosedBefore b s.1 s.2.1 s.2.2.1 s.2.2.2
  rank s := s.2.2.1
  run_eq s := by
    rw [allUnclosedBefore_eq, back_apply fun r => (allUnclosedTurn s.2.2.2 r).elim _ id]
    rfl
  rank_lt {s t} h := by
    obtain ⟨m, hm, hgo⟩ := exists_of_elim_eq_inl h
    cases hgo
    exact start_lt_of_back hm

/-- The search for the opener that takes the bottom of the waiting closers. -/
def openerSearch : Search (Scanner × Walk × Nat) (Option Token × Scanner) where
  step s := openerTurn (P.back b s.1 s.2.1 s.2.2)
  run s := P.openerBefore b s.1 s.2.1 s.2.2
  rank s := s.2.2
  run_eq s := by
    rw [openerBefore_eq, back_apply fun r => (openerTurn r).elim _ id]
    dsimp only [openerTurn, Option.elim_some]
    rw [apply_ite (Sum.elim _ id)]
    rfl
  rank_lt {s t} h := by
    obtain ⟨m, hm, hgo⟩ := exists_of_elim_eq_inl h
    split at hgo
    · cases hgo
    · cases hgo
      exact start_lt_of_back hm

/-- The search for the closer that takes the bottom of the open openers. -/
def closerSearch : Search (Scanner × List Token × Nat) (Option Token × Scanner) where
  step s :=
    let r := s.1.next P.dialect b s.2.2
    let q := P.roleInContext b r.2 r.1
    if r.1.kind = .edge then .inr (none, r.2) else P.ahead q.2 s.2.1 q.1 r.1
  run s := P.closerAfter b s.1 s.2.1 s.2.2
  rank s := b.size - s.2.2
  run_eq s := by
    rw [closerAfter_ahead, apply_ite (Sum.elim _ id)]
    rfl
  rank_lt {s t} h := by
    dsimp only at h
    split at h
    · cases h
    · next hk =>
      obtain ⟨hlt, hsize⟩ := s.1.lt_stop_of_next P.dialect b s.2.2 hk
      rcases P.ahead_cases _ s.2.1 _ (s.1.next P.dialect b s.2.2).1 with ⟨hahead, -⟩ | ⟨rest, hahead, -⟩
      · rw [hahead] at h
        cases h
      · rw [hahead] at h
        cases h
        dsimp only
        omega

end Profile

/-! ## Two buffers alike -/

/-- The tokens and scanners over buffer `b` seen as tokens and scanners over buffer `b'`, with looks back and
    ahead that agree: those of a `Sound` scanner from offsets in `Behind` and `Ahead`, which find tokens that are
    `Own`. -/
structure Mirror (P : Profile) (b b' : Buffer) where
  token : Token → Token
  scanner : Scanner → Scanner
  Sound : Scanner → Prop
  Own : Token → Prop
  Behind : Nat → Prop
  Ahead : Nat → Prop
  kind_eq : ∀ x, (token x).kind = x.kind
  start_eq : ∀ x, (token x).start = x.start
  stop_eq : ∀ x, (token x).stop = x.stop
  asElse_eq : ∀ x, (token x).asElse = token x.asElse
  accepts_eq : ∀ o c, P.accepts (token o) (token c) = P.accepts o c
  namesDiffer_eq : ∀ o c, P.namesDiffer (token o) (token c) = P.namesDiffer o c
  prev_eq : ∀ {s p}, Sound s → Behind p →
    (scanner s).prev P.dialect b' p = Prod.map token scanner (s.prev P.dialect b p)
  next_eq : ∀ {s p}, Sound s → Ahead p →
    (scanner s).next P.dialect b' p = Prod.map token scanner (s.next P.dialect b p)
  prev_sound : ∀ {s} p, Sound s → Sound (s.prev P.dialect b p).2
  next_sound : ∀ {s} p, Sound s → Sound (s.next P.dialect b p).2
  prev_own : ∀ {s p}, Sound s → (s.prev P.dialect b p).1.kind ≠ .edge → Own (s.prev P.dialect b p).1
  next_own : ∀ {s p}, Sound s → (s.next P.dialect b p).1.kind ≠ .edge → Own (s.next P.dialect b p).1
  behind_start : ∀ {x}, Own x → Behind x.start
  ahead_else : ∀ {x}, Own x → x.kind = .elseLine → Ahead x.stop

namespace Mirror

variable {P : Profile} {b b' : Buffer} (M : Mirror P b b') {s : Scanner} {w : Walk} {p : Nat} {x : Token}

/-- The walk with its tokens seen over the other buffer. -/
def walk (w : Walk) : Walk := ⟨w.pending.map M.token, w.mismatch.map (Prod.map M.token M.token)⟩

theorem meet (w : Walk) (role : Role) (x : Token) :
    P.meet (M.walk w) role (M.token x) = Prod.map M.walk id (P.meet w role x) := by
  cases role with
  | inner | neutral | closer => rfl
  | opener =>
    have hpop : popFirst (P.accepts (M.token x)) (M.walk w).pending =
        (popFirst (P.accepts x) w.pending).map fun r => (M.token r.1, r.2.map M.token) := by
      rw [walk, popFirst_map]
      simp only [M.accepts_eq]
    cases hw : popFirst (P.accepts x) w.pending with
    | none =>
      rw [hw] at hpop
      rw [Profile.meet_leaves hw, Profile.meet_leaves hpop]
      rfl
    | some found =>
      rw [hw] at hpop
      rw [Profile.meet_takes hw, Profile.meet_takes hpop]
      dsimp only [Prod.map]
      rw [M.namesDiffer_eq]
      obtain ⟨pending, _ | pair⟩ := w
      · cases P.namesDiffer x found.1 <;> rfl
      · rfl

theorem continuesIf (hs : M.Sound s) (hx : M.Own x) :
    P.continuesIf b' (M.scanner s) (M.token x) = Prod.map id M.scanner (P.continuesIf b s x) ∧
      M.Sound (P.continuesIf b s x).2 := by
  by_cases h1 : x.kind = .ifBlock
  · rw [Profile.continuesIf_ifBlock h1, Profile.continuesIf_ifBlock ((M.kind_eq x).trans h1), M.start_eq,
      M.prev_eq hs (M.behind_start hx)]
    simp only [Prod.map, M.kind_eq, id_eq, true_and]
    exact M.prev_sound _ hs
  · by_cases h2 : x.kind = .elseLine
    · rw [Profile.continuesIf_elseLine h2, Profile.continuesIf_elseLine ((M.kind_eq x).trans h2), M.stop_eq,
        M.next_eq hs (M.ahead_else hx h2)]
      simp only [Prod.map, M.kind_eq, id_eq, true_and]
      exact M.next_sound _ hs
    · rw [Profile.continuesIf_other h1 h2,
        Profile.continuesIf_other (by rwa [M.kind_eq]) (by rwa [M.kind_eq])]
      exact ⟨rfl, hs⟩

theorem roleInContext (hs : M.Sound s) (hx : M.Own x) :
    P.roleInContext b' (M.scanner s) (M.token x) = Prod.map id M.scanner (P.roleInContext b s x) ∧
      M.Sound (P.roleInContext b s x).2 := by
  by_cases hk : x.kind = .ifBlock
  · obtain ⟨hsame, hsound⟩ := M.continuesIf hs hx
    rw [Profile.roleInContext_ifBlock hk, Profile.roleInContext_ifBlock ((M.kind_eq x).trans hk), hsame,
      M.kind_eq]
    exact ⟨rfl, hsound⟩
  · rw [Profile.roleInContext_other hk, Profile.roleInContext_other (by rwa [M.kind_eq]), M.kind_eq]
    -- for any role, as to compare the role of `x` with its `id` would work it out
    have hsame : ∀ role : Role, (role, M.scanner s) = Prod.map id M.scanner (role, s) := fun _ => rfl
    exact ⟨hsame _, hs⟩

/-- **The step that all walks back share agrees.** -/
theorem back (hs : M.Sound s) (hp : M.Behind p) (w : Walk) :
    P.back b' (M.scanner s) (M.walk w) p =
        Prod.map M.scanner (Option.map (Prod.map M.token (Prod.map M.walk id))) (P.back b s w p) ∧
      M.Sound (P.back b s w p).1 ∧ ∀ m, (P.back b s w p).2 = some m → M.Own m.1 := by
  have hprev := M.prev_eq hs hp
  have hsound := M.prev_sound p hs
  have hown := M.prev_own (p := p) hs
  rw [Profile.back, Profile.back, hprev]
  generalize s.prev P.dialect b p = r at hsound hown
  simp only [Prod.map, M.kind_eq]
  by_cases hk : r.1.kind = .edge
  · rw [if_pos hk, if_pos hk]
    exact ⟨rfl, hsound, fun m hm => by cases hm⟩
  · obtain ⟨hrole, hsound'⟩ := M.roleInContext hsound (hown hk)
    rw [if_neg hk, if_neg hk, hrole]
    dsimp only [Prod.map, id]
    rw [M.meet]
    refine ⟨rfl, hsound', fun m hm => ?_⟩
    cases hm
    exact hown hk

/-- The nearest unclosed opener. -/
theorem unclosedBefore (hs : M.Sound s) (hp : M.Behind p) (w : Walk) :
    P.unclosedBefore b' (M.scanner s) (M.walk w) p =
        Prod.map (Option.map M.token) (Prod.map M.walk M.scanner) (P.unclosedBefore b s w p) ∧
      (∀ o, (P.unclosedBefore b s w p).1 = some o → M.Own o) ∧ M.Sound (P.unclosedBefore b s w p).2.2 := by
  refine (P.unclosedSearch b).run_map_of (P.unclosedSearch b').run_eq (s := (s, w, p))
    (f := Prod.map M.scanner (Prod.map M.walk id)) (I := fun s => M.Sound s.1 ∧ M.Behind s.2.2)
    (J := fun r => (∀ o, r.1 = some o → M.Own o) ∧ M.Sound r.2.2) ?_ ⟨hs, hp⟩
  rintro ⟨s, w, p⟩ ⟨hs, hp⟩
  obtain ⟨hsame, hsound, hown⟩ := M.back hs hp w
  dsimp only [Profile.unclosedSearch, Prod.map, id] at hsame ⊢
  rw [hsame]
  generalize P.back b s w p = r at hsound hown
  obtain ⟨s', _ | m⟩ := r
  · exact ⟨rfl, fun o ho => (by cases ho), hsound⟩
  · dsimp only [Profile.unclosedTurn, Option.map_some, Option.elim_some, Prod.map, id]
    rw [M.start_eq]
    split
    · exact ⟨rfl, fun o ho => Option.some.inj ho ▸ hown m rfl, hsound⟩
    · exact ⟨rfl, hsound, M.behind_start (hown m rfl)⟩

/-- All unclosed openers. -/
theorem allUnclosedBefore (hs : M.Sound s) (hp : M.Behind p) (w : Walk) (inner : List Token) :
    P.allUnclosedBefore b' (M.scanner s) (M.walk w) p (inner.map M.token) =
      (P.allUnclosedBefore b s w p inner).map M.token := by
  refine ((P.allUnclosedSearch b).run_map_of (P.allUnclosedSearch b').run_eq (s := (s, w, p, inner))
    (f := Prod.map M.scanner (Prod.map M.walk (Prod.map id (List.map M.token)))) (J := fun _ => True)
    (I := fun s => M.Sound s.1 ∧ M.Behind s.2.2.1) ?_ ⟨hs, hp⟩).1
  rintro ⟨s, w, p, inner⟩ ⟨hs, hp⟩
  obtain ⟨hsame, hsound, hown⟩ := M.back hs hp w
  dsimp only [Profile.allUnclosedSearch, Prod.map, id] at hsame ⊢
  rw [hsame]
  generalize P.back b s w p = r at hsound hown
  obtain ⟨s', _ | m⟩ := r
  · exact ⟨rfl, trivial⟩
  · dsimp only [Profile.allUnclosedTurn, Option.map_some, Option.elim_some, Prod.map, id]
    rw [M.start_eq]
    refine ⟨?_, hsound, M.behind_start (hown m rfl)⟩
    split
    · rfl
    · rfl

/-- The opener that takes the waiting closers. -/
theorem openerBefore (hs : M.Sound s) (hp : M.Behind p) (w : Walk) :
    P.openerBefore b' (M.scanner s) (M.walk w) p =
        Prod.map (Option.map M.token) M.scanner (P.openerBefore b s w p) ∧
      (∀ o, (P.openerBefore b s w p).1 = some o → M.Own o) ∧ M.Sound (P.openerBefore b s w p).2 := by
  refine (P.openerSearch b).run_map_of (P.openerSearch b').run_eq (s := (s, w, p))
    (f := Prod.map M.scanner (Prod.map M.walk id)) (I := fun s => M.Sound s.1 ∧ M.Behind s.2.2)
    (J := fun r => (∀ o, r.1 = some o → M.Own o) ∧ M.Sound r.2) ?_ ⟨hs, hp⟩
  rintro ⟨s, w, p⟩ ⟨hs, hp⟩
  obtain ⟨hsame, hsound, hown⟩ := M.back hs hp w
  dsimp only [Profile.openerSearch, Prod.map, id] at hsame ⊢
  rw [hsame]
  generalize P.back b s w p = r at hsound hown
  obtain ⟨s', _ | m⟩ := r
  · exact ⟨rfl, fun o ho => (by cases ho), hsound⟩
  · dsimp only [Profile.openerTurn, walk, Option.map_some, Option.elim_some, Prod.map, id]
    rw [M.start_eq, List.isEmpty_map]
    split
    · exact ⟨rfl, fun o ho => Option.some.inj ho ▸ hown m rfl, hsound⟩
    · exact ⟨rfl, hsound, M.behind_start (hown m rfl)⟩

/-- The opener of a construct. -/
theorem openerOf (hs : M.Sound s) (hp : M.Behind x.start) :
    P.openerOf b' (M.scanner s) (M.token x) = Prod.map (Option.map M.token) M.scanner (P.openerOf b s x) ∧
      (∀ o, (P.openerOf b s x).1 = some o → M.Own o) ∧ M.Sound (P.openerOf b s x).2 := by
  rw [Profile.openerOf, Profile.openerOf, M.start_eq]
  exact M.openerBefore hs hp { pending := [x] }

/-- The nearest token that is no separator. -/
theorem skipSeparators (hs : M.Sound s) (hp : M.Behind p) :
    P.skipSeparators b' (M.scanner s) p = Prod.map M.token M.scanner (P.skipSeparators b s p) ∧
      M.Sound (P.skipSeparators b s p).2 ∧
      ((P.skipSeparators b s p).1.kind ≠ .edge → M.Own (P.skipSeparators b s p).1) := by
  refine (P.separatorSearch b).run_map_of (P.separatorSearch b').run_eq (s := (s, p))
    (f := Prod.map M.scanner id) (I := fun s => M.Sound s.1 ∧ M.Behind s.2)
    (J := fun r => M.Sound r.2 ∧ (r.1.kind ≠ .edge → M.Own r.1)) ?_ ⟨hs, hp⟩
  rintro ⟨s, p⟩ ⟨hs, hp⟩
  have hprev := M.prev_eq hs hp
  have hsound := M.prev_sound p hs
  have hown := M.prev_own (p := p) hs
  dsimp only [Profile.separatorSearch, Prod.map, id] at hprev ⊢
  rw [hprev]
  generalize s.prev P.dialect b p = r at hsound hown
  simp only [Profile.separatorTurn, M.kind_eq, M.start_eq]
  split
  · next hk => exact ⟨rfl, hsound, M.behind_start (hown (by rw [hk]; decide))⟩
  · exact ⟨rfl, hsound, hown⟩

/-- The first token of a statement. -/
theorem statementStart (hs : M.Sound s) (hp : M.Behind p) (hx : M.Own x) :
    P.statementStart b' (M.scanner s) (M.token x) p =
        Prod.map M.token M.scanner (P.statementStart b s x p) ∧
      M.Sound (P.statementStart b s x p).2 ∧ M.Own (P.statementStart b s x p).1 := by
  refine (P.statementSearch b).run_map_of (P.statementSearch b').run_eq (s := (s, x, p))
    (f := Prod.map M.scanner (Prod.map M.token id))
    (I := fun s => M.Sound s.1 ∧ M.Own s.2.1 ∧ M.Behind s.2.2)
    (J := fun r => M.Sound r.2 ∧ M.Own r.1) ?_ ⟨hs, hx, hp⟩
  rintro ⟨s, x, p⟩ ⟨hs, hx, hp⟩
  have hprev := M.prev_eq hs hp
  have hsound := M.prev_sound p hs
  have hown := M.prev_own (p := p) hs
  dsimp only [Profile.statementSearch, Prod.map, id] at hprev ⊢
  rw [hprev]
  generalize s.prev P.dialect b p = r at hsound hown
  simp only [Profile.statementTurn, M.kind_eq, M.start_eq]
  split
  · exact ⟨rfl, hsound, hx⟩
  · next hk =>
    have hr := hown (not_or.1 hk).1
    exact ⟨rfl, hsound, hr, M.behind_start hr⟩

/-- Whether an `else` is flat. -/
theorem isFlatElse (hs : M.Sound s) (hx : M.Own x) :
    P.isFlatElse b' (M.scanner s) (M.token x) = Prod.map id M.scanner (P.isFlatElse b s x) ∧
      M.Sound (P.isFlatElse b s x).2 := by
  obtain ⟨hskip, hsound, hown⟩ := M.skipSeparators hs (M.behind_start hx)
  rw [Profile.isFlatElse_eq, Profile.isFlatElse_eq, M.start_eq, hskip]
  generalize P.skipSeparators b s x.start = r at hsound hown
  simp only [Prod.map, M.kind_eq, id_eq]
  by_cases hk : r.1.kind = .edge
  · rw [if_pos hk, if_pos hk]
    exact ⟨rfl, hsound⟩
  · obtain ⟨hfirst, hsound', hown'⟩ := M.statementStart hsound (M.behind_start (hown hk)) (hown hk)
    rw [if_neg hk, if_neg hk, M.start_eq, hfirst]
    generalize P.statementStart b r.2 r.1 r.1.start = q at hsound' hown'
    obtain ⟨hcont, hsound''⟩ := M.continuesIf hsound' hown'
    simp only [Prod.map, M.kind_eq, hcont, id_eq]
    split
    · exact ⟨rfl, hsound'⟩
    · split
      · exact ⟨rfl, hsound''⟩
      · exact ⟨rfl, hsound'⟩

/-- The opener that a line is aligned with. -/
theorem alignedWith (hs : M.Sound s) (hx : M.Own x) :
    P.alignedWith b' (M.scanner s) (M.token x) =
        Prod.map (Option.map M.token) M.scanner (P.alignedWith b s x) ∧
      (∀ o, (P.alignedWith b s x).1 = some o → M.Own o) ∧ M.Sound (P.alignedWith b s x).2 := by
  have hels : M.Behind x.asElse.start := show M.Behind x.start from M.behind_start hx
  obtain ⟨hcont, hsound⟩ := M.continuesIf hs hx
  unfold Profile.alignedWith
  rw [hcont, M.kind_eq, M.asElse_eq]
  generalize P.continuesIf b s x = q at hsound
  dsimp only [Prod.map, id]
  split
  · exact M.openerOf hsound hels
  · split
    · exact M.openerOf hsound (M.behind_start hx)
    · split
      · obtain ⟨hflat, hsound'⟩ := M.isFlatElse hsound hx
        rw [hflat]
        generalize P.isFlatElse b q.2 x = f at hsound'
        dsimp only [Prod.map, id]
        split
        · exact ⟨rfl, fun o ho => (by cases ho), hsound'⟩
        · exact M.openerOf hsound' (M.behind_start hx)
      · exact ⟨rfl, fun o ho => (by cases ho), hsound⟩

theorem ahead (s : Scanner) (pending : List Token) (role : Role) (x : Token) :
    P.ahead (M.scanner s) (pending.map M.token) role (M.token x) =
      (P.ahead s pending role x).map (Prod.map M.scanner (Prod.map (List.map M.token) id))
        (Prod.map (Option.map M.token) M.scanner) := by
  cases role with
  | opener | inner | neutral =>
    dsimp only [Profile.ahead]
    rw [M.stop_eq]
    rfl
  | closer =>
    have hpop : popFirst (P.accepts · (M.token x)) (pending.map M.token) =
        (popFirst (P.accepts · x) pending).map fun r => (M.token r.1, r.2.map M.token) := by
      rw [popFirst_map]
      simp only [M.accepts_eq]
    dsimp only [Profile.ahead]
    rw [hpop]
    rcases popFirst (P.accepts · x) pending with _ | ⟨o, _ | ⟨y, rest⟩⟩ <;>
      dsimp only [Profile.behindCloser] <;> rw [M.stop_eq] <;> rfl

/-- The closer that takes the open openers, where looks ahead agree everywhere. -/
theorem closerAfter (hahead : ∀ p, M.Ahead p) (hs : M.Sound s) (pending : List Token) (p : Nat) :
    P.closerAfter b' (M.scanner s) (pending.map M.token) p =
      Prod.map (Option.map M.token) M.scanner (P.closerAfter b s pending p) := by
  refine ((P.closerSearch b).run_map_of (P.closerSearch b').run_eq (s := (s, pending, p))
    (f := Prod.map M.scanner (Prod.map (List.map M.token) id)) (I := fun s => M.Sound s.1)
    (J := fun _ => True) ?_ hs).1
  rintro ⟨s, pending, p⟩ hs
  have hnext := M.next_eq hs (hahead p)
  have hsound := M.next_sound p hs
  have hown := M.next_own (p := p) hs
  dsimp only [Profile.closerSearch, Prod.map, id] at hnext ⊢
  rw [hnext]
  generalize s.next P.dialect b p = r at hsound hown
  simp only [M.kind_eq]
  by_cases hk : r.1.kind = .edge
  · rw [if_pos hk, if_pos hk]
    exact ⟨rfl, trivial⟩
  · obtain ⟨hrole, hsound'⟩ := M.roleInContext hsound (hown hk)
    rw [if_neg hk, if_neg hk, hrole]
    refine ⟨M.ahead _ _ _ _, ?_⟩
    rcases P.ahead_cases (P.roleInContext b r.2 r.1).2 pending (P.roleInContext b r.2 r.1).1 r.1 with
      ⟨hstep, -⟩ | ⟨rest, hstep, -⟩
    · rw [hstep]
      trivial
    · rw [hstep]
      exact hsound'

end Mirror

end BlockScript
