/-
  Searches over the list of tokens.

  Every search of a partner walks with a scanner; here each has a twin that recurses on the tokens
  themselves: those before a place, the nearest first, or those after it.  A search gives what its twin
  gives, unless the budget runs out on the way (`openerBefore_gives`, `unclosedBefore_gives`,
  `closerAfter_gives`, `isFlatElse_gives`).

  All walks take the same step: the next token their way, then its role.  `Meets` says what a step comes
  to, also when the budget runs out in the middle of it, so nothing below has to look into the scanner
  again (`back_step`, `back_stop`, `ahead_step`, `ahead_stop`).
-/
import BlockScript.Nesting.Indent
import BlockScript.Proofs.Scanning

namespace BlockScript

/-! ## The twins -/

/-- The role of a token after the token `previous`: an `if` right after an `else` continues a block. -/
def Token.roleAfter (previous : Option Token) (t : Token) : Role :=
  if t.kind = .ifBlock ∧ previous.any (·.kind = .elseLine) then .inner else t.kind.role

/-- Whether `t`, between two tokens, is the `else` or the `if` of an `else if ... then` line that ends
    in a block. -/
def Token.continuesBetween (previous : Option Token) (t : Token) (next : Option Token) : Bool :=
  match t.kind with
  | .ifBlock => previous.any (·.kind = .elseLine)
  | .elseLine => next.any (·.kind = .ifBlock)
  | _ => false

/-- Whether an `else` after the tokens `rev`, the nearest first, continues a chain of single-line
    conditions: the statement before it starts with a single-line `if`, or with an `else` that no block
    `if` follows. -/
def flatAfter (rev : List Token) : Bool :=
  match ((rev.dropWhile (·.kind = .separator)).takeWhile (·.kind ≠ .separator)).reverse with
  | [] => false
  | first :: rest =>
    first.kind = .ifLine || first.kind = .elseLine && !rest.head?.any (·.kind = .ifBlock)

namespace Profile

variable (P : Profile)

/-- The opener among the tokens before a place, the nearest first, that takes the bottom of the waiting
    closers. -/
def openerIn (w : Walk) : List Token → Option Token
  | [] => none
  | t :: rev =>
    let w' := (P.meet w (t.roleAfter rev.head?) t).1
    if w'.pending.isEmpty then some t else openerIn w' rev

/-- The nearest unclosed opener among the tokens before a place, with the search's state there. -/
def unclosedIn (w : Walk) : List Token → Option Token × Walk
  | [] => (none, w)
  | t :: rev =>
    let (w', unclosed) := P.meet w (t.roleAfter rev.head?) t
    if unclosed then (some t, w') else unclosedIn w' rev

/-- All unclosed openers among the tokens before a place, outermost first, before those in `inner`. -/
def allUnclosedIn (w : Walk) (inner : List Token) : List Token → List Token
  | [] => inner
  | t :: rev =>
    let (w', unclosed) := P.meet w (t.roleAfter rev.head?) t
    allUnclosedIn w' (if unclosed then t :: inner else inner) rev

/-- The closer among the tokens after `previous` that takes the bottom of the open openers. -/
def closerIn (previous : Option Token) (pending : List Token) : List Token → Option Token
  | [] => none
  | t :: ts =>
    match t.roleAfter previous with
    | .opener => closerIn (some t) (t :: pending) ts
    | .closer =>
      match popFirst (P.accepts · t) pending with
      | some (_, []) => some t
      | some (_, rest) => closerIn (some t) rest ts
      | none => closerIn (some t) pending ts
    | _ => closerIn (some t) pending ts

/-- The pair that `t`, between the tokens `rev` and `post`, belongs to. -/
def matchIn (rev : List Token) (t : Token) (post : List Token) : Option Pair :=
  if t.continuesBetween rev.head? post.head? then
    (P.openerIn { pending := [t.asElse] } rev).map (⟨·, t⟩)
  else
    match t.kind.role with
    | .opener => (P.closerIn (some t) [t] post).map (⟨t, ·⟩)
    | .neutral => none
    | _ =>
      if t.kind = .elseBlock && flatAfter rev then none
      else (P.openerIn { pending := [t] } rev).map (⟨·, t⟩)

end Profile

/-! ## Waiting closers -/

theorem popFirst_cons_of_pos {f : Token → Bool} {t : Token} (h : f t) (ts : List Token) :
    popFirst f (t :: ts) = some (t, ts) := by
  rw [popFirst, if_pos h]

theorem popFirst_cons_of_neg {f : Token → Bool} {t : Token} (h : ¬f t) (ts : List Token) :
    popFirst f (t :: ts) = popFirst f ts := by
  rw [popFirst, if_neg h]

theorem popFirst_map (f : Token → Token) (g : Token → Bool) (ts : List Token) :
    popFirst g (ts.map f) = (popFirst (fun t => g (f t)) ts).map fun r => (f r.1, r.2.map f) := by
  induction ts with
  | nil => rfl
  | cons t ts ih =>
    rw [List.map_cons, popFirst, popFirst, ih]
    split <;> rfl

theorem popFirst_split {f : Token → Bool} {ts rest : List Token} {x : Token}
    (h : popFirst f ts = some (x, rest)) : f x ∧ ∃ above, ts = above ++ x :: rest := by
  induction ts with
  | nil => cases h
  | cons t ts ih =>
    rw [popFirst] at h
    split at h
    · next ht =>
      cases h
      exact ⟨ht, [], rfl⟩
    · obtain ⟨hx, above, rfl⟩ := ih h
      exact ⟨hx, t :: above, rfl⟩

namespace Profile

-- both are stated for any walk: with the closers written out, checking them works out the table of blocks

/-- An opener takes the topmost closer it accepts. -/
theorem meet_takes {P : Profile} {w : Walk} {t c : Token} {rest : List Token}
    (h : popFirst (P.accepts t) w.pending = some (c, rest)) :
    P.meet w .opener t =
      (⟨rest, w.mismatch <|> if P.namesDiffer t c then some (t, c) else none⟩, false) := by
  rw [meet]
  dsimp only
  rw [h]

/-- An opener that accepts no closer that waits is unclosed. -/
theorem meet_leaves {P : Profile} {w : Walk} {t : Token} (h : popFirst (P.accepts t) w.pending = none) :
    P.meet w .opener t = (w, true) := by
  rw [meet]
  dsimp only
  rw [h]

/-! ## Roles -/

variable {P : Profile} {b : Buffer} {s : Scanner} {p : Nat} {t : Token} {rev post : List Token}

theorem continuesIf_ifBlock (hk : t.kind = .ifBlock) :
    P.continuesIf b s t = (decide ((s.prev P.dialect b t.start).1.kind = .elseLine),
      (s.prev P.dialect b t.start).2) := by
  simp only [continuesIf, hk]

theorem continuesIf_elseLine (hk : t.kind = .elseLine) :
    P.continuesIf b s t = (decide ((s.next P.dialect b t.stop).1.kind = .ifBlock),
      (s.next P.dialect b t.stop).2) := by
  simp only [continuesIf, hk]

theorem continuesIf_other (h1 : t.kind ≠ .ifBlock) (h2 : t.kind ≠ .elseLine) :
    P.continuesIf b s t = (false, s) := by
  unfold continuesIf
  split
  · exact absurd ‹_› h1
  · exact absurd ‹_› h2
  · rfl

theorem continuesIf_follows (hs : s.Sound P.dialect b) (t : Token) :
    s.Follows P.dialect b (P.continuesIf b s t).2 := by
  by_cases h1 : t.kind = .ifBlock
  · rw [continuesIf_ifBlock h1]
    exact (Scanner.prev_spec hs t.start).follows
  · by_cases h2 : t.kind = .elseLine
    · rw [continuesIf_elseLine h2]
      exact (Scanner.next_spec hs t.stop).follows
    · rw [continuesIf_other h1 h2]
      exact .refl s

/-- A look around a token tells whether it continues a block, and denies it once the budget has run
    out. -/
theorem continuesIf_gives (hs : s.Sound P.dialect b)
    (h : P.dialect.tokenize b.text = rev.reverse ++ t :: post) :
    s.Gives P.dialect b (P.continuesIf b s t) (t.continuesBetween rev.head? post.head?) ∧
      ((P.continuesIf b s t).2.exhausted = true → (P.continuesIf b s t).1 = false) := by
  by_cases h1 : t.kind = .ifBlock
  · have hprev := Scanner.prev_spec hs t.start
    rw [continuesIf_ifBlock h1]
    refine ⟨⟨hprev.follows, fun he => ?_⟩, fun he => ?_⟩
    · simp only [hprev.fst_eq he, (Dialect.Cut.of_start h).tokenBefore, Token.continuesBetween, h1]
      cases rev <;> rfl
    · simp [hprev.edge he]
  · by_cases h2 : t.kind = .elseLine
    · have hnext := Scanner.next_spec hs t.stop
      rw [continuesIf_elseLine h2]
      refine ⟨⟨hnext.follows, fun he => ?_⟩, fun he => ?_⟩
      · simp only [hnext.fst_eq he, (Dialect.Gap.of_stop h).tokenAfter, Token.continuesBetween, h2]
        cases post <;> rfl
      · simp [hnext.edge he]
    · rw [continuesIf_other h1 h2]
      refine ⟨⟨.refl s, fun _ => ?_⟩, fun _ => rfl⟩
      unfold Token.continuesBetween
      split
      · exact absurd ‹_› h1
      · exact absurd ‹_› h2
      · rfl

theorem roleInContext_ifBlock (hk : t.kind = .ifBlock) :
    P.roleInContext b s t = (if (P.continuesIf b s t).1 then .inner else t.kind.role,
      (P.continuesIf b s t).2) := by
  rw [roleInContext, if_pos hk]

theorem roleInContext_other (hk : t.kind ≠ .ifBlock) : P.roleInContext b s t = (t.kind.role, s) := by
  rw [roleInContext, if_neg hk]

theorem roleInContext_follows (hs : s.Sound P.dialect b) (t : Token) :
    s.Follows P.dialect b (P.roleInContext b s t).2 := by
  by_cases hk : t.kind = .ifBlock
  · rw [roleInContext_ifBlock hk]
    exact continuesIf_follows hs t
  · rw [roleInContext_other hk]
    exact .refl s

/-- The role in context is the role after the token before; once the budget has run out it is the
    role of the kind. -/
theorem roleInContext_gives (hs : s.Sound P.dialect b)
    (h : P.dialect.tokenize b.text = rev.reverse ++ t :: post) :
    s.Gives P.dialect b (P.roleInContext b s t) (t.roleAfter rev.head?) ∧
      ((P.roleInContext b s t).2.exhausted = true → (P.roleInContext b s t).1 = t.kind.role) := by
  by_cases hk : t.kind = .ifBlock
  · obtain ⟨hgives, hdeny⟩ := continuesIf_gives hs h
    rw [roleInContext_ifBlock hk]
    refine ⟨⟨hgives.follows, fun he => ?_⟩, fun he => ?_⟩
    · simp only [hgives.fst_eq he, Token.continuesBetween, Token.roleAfter, hk, true_and]
    · simp only [hdeny he, Bool.false_eq_true, if_false]
  · rw [roleInContext_other hk, Token.roleAfter, if_neg fun h => hk h.1]
    exact ⟨⟨.refl s, fun _ => rfl⟩, fun _ => rfl⟩

/-! ## Walking back -/

/-- What one step of a walk comes to where `t`, after the token `previous`, is to be met: it meets `t`
    and tells its role, or it meets the edge because the budget has run out.  The budget may also run out
    on the look behind `t`; the role is then that of its kind. -/
def Meets (P : Profile) (b : Buffer) (s : Scanner) (r : Token × Scanner) (previous : Option Token)
    (t : Token) : Prop :=
  s.Follows P.dialect b r.2 ∧
  ((r.2.exhausted = true ∧ r.1.kind = .edge) ∨
    (r.2.exhausted = false ∧ r.1 = t ∧ t.kind ≠ .edge ∧
      r.2.Gives P.dialect b (P.roleInContext b r.2 t) (t.roleAfter previous) ∧
      ((P.roleInContext b r.2 t).2.exhausted = true → (P.roleInContext b r.2 t).1 = t.kind.role)))

/-- A call that tells a token of the text meets it. -/
theorem meets_of_tells (hs : s.Sound P.dialect b)
    (h : P.dialect.tokenize b.text = rev.reverse ++ t :: post) {r : Token × Scanner}
    (htells : s.Tells P.dialect b r t) : P.Meets b s r rev.head? t := by
  refine ⟨htells.follows, ?_⟩
  cases he : r.2.exhausted with
  | true => exact Or.inl ⟨rfl, htells.edge he⟩
  | false =>
    have hne : t.kind ≠ .edge := P.dialect.tokenize_ne_edge b.text t (by simp [h])
    obtain ⟨hrole, hspent⟩ := roleInContext_gives (htells.follows.sound hs) h
    exact Or.inr ⟨rfl, htells.fst_eq he, hne, hrole, hspent⟩

/-- A step back where no token is left meets the edge. -/
theorem back_stop (hs : s.Sound P.dialect b) (h : P.dialect.Cut b.text p [] post) :
    (s.prev P.dialect b p).1.kind = .edge := by
  have hprev := Scanner.prev_spec hs p
  rw [h.tokenBefore] at hprev
  exact hprev.kind_eq_edge rfl

/-- A step back from a cut meets the nearest token before it. -/
theorem back_step (hs : s.Sound P.dialect b) (h : P.dialect.Cut b.text p (t :: rev) post) :
    P.Meets b s (s.prev P.dialect b p) rev.head? t := by
  have hprev := Scanner.prev_spec hs p
  rw [h.tokenBefore] at hprev
  exact meets_of_tells hs h.back.tokens hprev

theorem openerBefore_eq (s : Scanner) (w : Walk) (p : Nat) :
    P.openerBefore b s w p =
      let r := s.prev P.dialect b p
      if r.1.kind = .edge then (none, r.2)
      else
        let q := P.roleInContext b r.2 r.1
        let w' := (P.meet w q.1 r.1).1
        if w'.pending.isEmpty then (some r.1, q.2) else P.openerBefore b q.2 w' r.1.start := by
  rw [openerBefore]

theorem unclosedBefore_eq (s : Scanner) (w : Walk) (p : Nat) :
    P.unclosedBefore b s w p =
      let r := s.prev P.dialect b p
      if r.1.kind = .edge then (none, w, r.2)
      else
        let q := P.roleInContext b r.2 r.1
        let m := P.meet w q.1 r.1
        if m.2 then (some r.1, m.1, q.2) else P.unclosedBefore b q.2 m.1 r.1.start := by
  rw [unclosedBefore]

theorem allUnclosedBefore_eq (s : Scanner) (w : Walk) (p : Nat) (inner : List Token) :
    P.allUnclosedBefore b s w p inner =
      let r := s.prev P.dialect b p
      if r.1.kind = .edge then inner
      else
        let q := P.roleInContext b r.2 r.1
        let m := P.meet w q.1 r.1
        P.allUnclosedBefore b q.2 m.1 r.1.start (if m.2 then r.1 :: inner else inner) := by
  rw [allUnclosedBefore]

/-- The search for an opener gives what it gives over the tokens. -/
theorem openerBefore_gives (hs : s.Sound P.dialect b) (w : Walk)
    (h : P.dialect.Cut b.text p rev post) :
    s.Gives P.dialect b (P.openerBefore b s w p) (P.openerIn w rev) := by
  -- over the tokens still to meet: each step leaves another scanner, place and state of the walk
  induction rev generalizing s w p post with
  | nil =>
    rw [openerBefore_eq]
    simp only [back_stop hs h, if_true]
    exact ⟨(Scanner.prev_spec hs p).follows, fun _ => rfl⟩
  | cons t rev ih =>
    obtain ⟨hfollows, hstep⟩ := back_step hs h
    rw [openerBefore_eq]
    rcases hstep with ⟨he, hk⟩ | ⟨-, ht, hne, hrole, -⟩
    · simp only [hk, if_true]
      exact ⟨hfollows, fun h' => absurd h' (by simp [he])⟩
    · simp only [ht, hne, if_false]
      have hsound := hrole.follows.sound (hfollows.sound hs)
      split
      case isTrue hempty =>
        refine ⟨hfollows.trans hrole.follows, fun hn => ?_⟩
        rw [hrole.fst_eq hn] at hempty
        simp only [openerIn, hempty, if_true]
      case isFalse hwait =>
        have hrest := ih hsound (P.meet w (P.roleInContext b (s.prev P.dialect b p).2 t).1 t).1 h.back
        refine ⟨(hfollows.trans hrole.follows).trans hrest.follows, fun hn => ?_⟩
        have hr := hrole.fst_eq (hrest.follows.not_exhausted hn)
        rw [hrest.fst_eq hn, hr]
        rw [hr] at hwait
        simp only [openerIn, hwait, Bool.false_eq_true, if_false]

/-- The search for an unclosed opener gives what it gives over the tokens. -/
theorem unclosedBefore_gives (hs : s.Sound P.dialect b) (w : Walk)
    (h : P.dialect.Cut b.text p rev post) :
    let r := P.unclosedBefore b s w p
    s.Gives P.dialect b ((r.1, r.2.1), r.2.2) (P.unclosedIn w rev) := by
  induction rev generalizing s w p post with
  | nil =>
    rw [unclosedBefore_eq]
    simp only [back_stop hs h, if_true]
    exact ⟨(Scanner.prev_spec hs p).follows, fun _ => rfl⟩
  | cons t rev ih =>
    obtain ⟨hfollows, hstep⟩ := back_step hs h
    rw [unclosedBefore_eq]
    rcases hstep with ⟨he, hk⟩ | ⟨-, ht, hne, hrole, -⟩
    · simp only [hk, if_true]
      exact ⟨hfollows, fun h' => absurd h' (by simp [he])⟩
    · simp only [ht, hne, if_false]
      have hsound := hrole.follows.sound (hfollows.sound hs)
      split
      case isTrue hopen =>
        refine ⟨hfollows.trans hrole.follows, fun hn => ?_⟩
        rw [hrole.fst_eq hn] at hopen
        simp only [unclosedIn, hopen, if_true, hrole.fst_eq hn]
      case isFalse hclosed =>
        have hrest := ih hsound (P.meet w (P.roleInContext b (s.prev P.dialect b p).2 t).1 t).1 h.back
        refine ⟨(hfollows.trans hrole.follows).trans hrest.follows, fun hn => ?_⟩
        have hr := hrole.fst_eq (hrest.follows.not_exhausted hn)
        rw [hr] at hclosed
        rw [hrest.fst_eq hn, hr]
        simp only [unclosedIn, hclosed, Bool.false_eq_true, if_false]

/-- Without a budget the search for all unclosed openers finds what it finds over the tokens. -/
theorem allUnclosedBefore_eq_in (hs : s.Sound P.dialect b) (hb : s.budget = none) (w : Walk)
    (h : P.dialect.Cut b.text p rev post) (inner : List Token) :
    P.allUnclosedBefore b s w p inner = P.allUnclosedIn w inner rev := by
  induction rev generalizing s w p post inner with
  | nil =>
    rw [allUnclosedBefore_eq]
    simp only [back_stop hs h, if_true, allUnclosedIn]
  | cons t rev ih =>
    obtain ⟨hfollows, hstep⟩ := back_step hs h
    have hb' := hfollows.budget.trans hb
    rw [allUnclosedBefore_eq]
    rcases hstep with ⟨he, -⟩ | ⟨-, ht, hne, hrole, -⟩
    · exact absurd he (by simp [Scanner.exhausted_eq_false hb'])
    · obtain ⟨hr, hb''⟩ := hrole.of_unlimited hb'
      simp only [ht, hne, if_false]
      rw [ih (hrole.follows.sound (hfollows.sound hs)) hb'' _ h.back, hr]
      rfl

/-! ## Flat conditions -/

theorem skipSeparators_eq (s : Scanner) (p : Nat) :
    P.skipSeparators b s p =
      let r := s.prev P.dialect b p
      if r.1.kind = .separator then P.skipSeparators b r.2 r.1.start else r := by
  rw [skipSeparators]

theorem statementStart_eq (s : Scanner) (first : Token) (p : Nat) :
    P.statementStart b s first p =
      let r := s.prev P.dialect b p
      if r.1.kind = .edge ∨ r.1.kind = .separator then (first, r.2)
      else P.statementStart b r.2 r.1 r.1.start := by
  rw [statementStart]

/-- Skipping separators leads to the nearest token that is none. -/
theorem skipSeparators_tells (hs : s.Sound P.dialect b) (h : P.dialect.Cut b.text p rev post) :
    s.Tells P.dialect b (P.skipSeparators b s p)
      ((rev.dropWhile (·.kind = .separator)).head?.getD (Token.edgeAt 0)) := by
  have hprev := Scanner.prev_spec hs p
  induction rev generalizing s p post with
  | nil =>
    rw [skipSeparators_eq]
    simp only [back_stop hs h, reduceCtorEq, if_false]
    exact ⟨⟨hprev.follows, fun he => (hprev.fst_eq he).trans h.tokenBefore⟩, hprev.edge⟩
  | cons t rev ih =>
    obtain ⟨hfollows, hstep⟩ := back_step hs h
    rw [skipSeparators_eq]
    rcases hstep with ⟨he, hk⟩ | ⟨-, ht, -, -, -⟩
    · simp only [hk, reduceCtorEq, if_false]
      exact ⟨⟨hfollows, fun h' => absurd h' (by simp [he])⟩, fun _ => hk⟩
    · by_cases hk : t.kind = .separator
      · have hsound := hfollows.sound hs
        have hrest := ih hsound h.back (Scanner.prev_spec hsound t.start)
        simp only [ht, hk, if_true, List.dropWhile_cons, decide_true]
        exact ⟨⟨hfollows.trans hrest.follows, hrest.fst_eq⟩, hrest.edge⟩
      · simp only [ht, hk, if_false, List.dropWhile_cons, decide_false, Bool.false_eq_true,
          List.head?_cons, Option.getD_some]
        exact ⟨⟨hfollows, fun _ => ht⟩, hprev.edge⟩

/-- The search for the start of a statement leads to the farthest token before a separator. -/
theorem statementStart_gives (hs : s.Sound P.dialect b) (first : Token)
    (h : P.dialect.Cut b.text p rev post) :
    s.Gives P.dialect b (P.statementStart b s first p)
      ((rev.takeWhile (·.kind ≠ .separator)).getLast?.getD first) := by
  induction rev generalizing s first p post with
  | nil =>
    rw [statementStart_eq]
    simp only [back_stop hs h, true_or, if_true]
    exact ⟨(Scanner.prev_spec hs p).follows, fun _ => rfl⟩
  | cons t rev ih =>
    obtain ⟨hfollows, hstep⟩ := back_step hs h
    rw [statementStart_eq]
    rcases hstep with ⟨he, hk⟩ | ⟨-, ht, hne, -, -⟩
    · simp only [hk, true_or, if_true]
      exact ⟨hfollows, fun h' => absurd h' (by simp [he])⟩
    · by_cases hk : t.kind = .separator
      · simp only [ht, hk, or_true, if_true]
        exact ⟨hfollows, fun _ => by simp [hk]⟩
      · have hrest := ih (hfollows.sound hs) t h.back
        simp only [ht, hne, hk, or_self, if_false]
        refine ⟨hfollows.trans hrest.follows, fun hn => ?_⟩
        rw [hrest.fst_eq hn]
        simp [hk, List.getLast?_cons]

theorem isFlatElse_eq (s : Scanner) (els : Token) :
    P.isFlatElse b s els =
      let r := P.skipSeparators b s els.start
      if r.1.kind = .edge then (false, r.2)
      else
        let q := P.statementStart b r.2 r.1 r.1.start
        if q.1.kind = .ifLine then (true, q.2)
        else if q.1.kind = .elseLine then
          (!(P.continuesIf b q.2 q.1).1, (P.continuesIf b q.2 q.1).2)
        else (false, q.2) := by
  unfold isFlatElse
  dsimp only
  split
  · rfl
  · split
    · rw [if_pos ‹_›]
    · rw [if_neg (by simp [*]), if_pos ‹_›]
    · rw [if_neg ‹_›, if_neg ‹_›]

theorem isFlatElse_follows (hs : s.Sound P.dialect b) (els : Token) :
    s.Follows P.dialect b (P.isFlatElse b s els).2 := by
  obtain ⟨post, hcut⟩ := P.dialect.exists_cut b.text els.start
  have h1 := (skipSeparators_tells hs hcut).follows
  have hs1 := h1.sound hs
  rw [isFlatElse_eq]
  dsimp only
  split
  · exact h1
  · obtain ⟨post', hcut'⟩ :=
      P.dialect.exists_cut b.text (P.skipSeparators b s els.start).1.start
    have h2 := (statementStart_gives hs1 (P.skipSeparators b s els.start).1 hcut').follows
    have h3 := continuesIf_follows (h2.sound hs1)
      (P.statementStart b (P.skipSeparators b s els.start).2 (P.skipSeparators b s els.start).1
        (P.skipSeparators b s els.start).1.start).1
    split
    · exact h1.trans h2
    · split
      · exact (h1.trans h2).trans h3
      · exact h1.trans h2

theorem reverse_of_dropWhile {q : Token → Bool} {rev rev' : List Token} {t : Token}
    (h : rev.dropWhile q = t :: rev') : rev.reverse = rev'.reverse ++ t :: (rev.takeWhile q).reverse := by
  calc rev.reverse
      = (rev.takeWhile q ++ t :: rev').reverse := by rw [← h, List.takeWhile_append_dropWhile]
    _ = _ := by simp only [List.reverse_append, List.reverse_cons, List.append_assoc, List.singleton_append]

/-- The statement before an `else`, told apart: its tokens in order, and those before and after it. -/
theorem exists_statement {rev rev' : List Token} {t : Token}
    (h : rev.dropWhile (·.kind = .separator) = t :: rev') :
    ∃ base first rest seps,
      rev.reverse = base ++ first :: (rest ++ seps) ∧
      first = (rev'.takeWhile (·.kind ≠ .separator)).getLast?.getD t ∧
      (∀ x ∈ seps, x.kind = .separator) ∧
      flatAfter rev = (first.kind = .ifLine ||
        first.kind = .elseLine && !rest.head?.any (·.kind = .ifBlock)) := by
  have ht : t.kind ≠ .separator := by
    have := List.head?_dropWhile_not (·.kind = TokenKind.separator) rev
    rw [h] at this
    simpa using this
  have hstmt : (t :: rev').takeWhile (·.kind ≠ .separator) =
      t :: rev'.takeWhile (·.kind ≠ .separator) := by simp [ht]
  obtain ⟨first, rest, hfirst⟩ :
      ∃ first rest, (rev'.takeWhile (·.kind ≠ .separator)).reverse ++ [t] = first :: rest :=
    List.exists_cons_of_ne_nil (by simp)
  have hhead := congrArg List.head? hfirst
  rw [List.head?_append, List.head?_reverse, List.head?_cons, List.head?_cons, Option.or_some] at hhead
  refine ⟨(rev'.dropWhile (·.kind ≠ .separator)).reverse, first, rest,
    (rev.takeWhile (·.kind = .separator)).reverse, ?_, ?_, ?_, ?_⟩
  · calc rev.reverse
        = rev'.reverse ++ t :: (rev.takeWhile (·.kind = .separator)).reverse := reverse_of_dropWhile h
      _ = (rev'.takeWhile (·.kind ≠ .separator) ++ rev'.dropWhile (·.kind ≠ .separator)).reverse ++
            ([t] ++ (rev.takeWhile (·.kind = .separator)).reverse) := by
          rw [List.takeWhile_append_dropWhile, List.singleton_append]
      _ = (rev'.dropWhile (·.kind ≠ .separator)).reverse ++
            (((rev'.takeWhile (·.kind ≠ .separator)).reverse ++ [t]) ++
              (rev.takeWhile (·.kind = .separator)).reverse) := by
          simp only [List.reverse_append, List.append_assoc]
      _ = _ := by rw [hfirst, List.cons_append]
  · exact (Option.some.inj hhead).symm
  · intro x hx
    simpa using List.all_eq_true.1 List.all_takeWhile x (List.mem_reverse.1 hx)
  · rw [flatAfter, h, hstmt, List.reverse_cons, hfirst]

/-- An `else` is found flat when the statement before it says so. -/
theorem isFlatElse_gives (hs : s.Sound P.dialect b) {els : Token} (hels : els.kind = .elseBlock)
    (h : P.dialect.tokenize b.text = rev.reverse ++ els :: post) :
    s.Gives P.dialect b (P.isFlatElse b s els) (flatAfter rev) := by
  refine ⟨isFlatElse_follows hs els, fun hn => ?_⟩
  have hskip := skipSeparators_tells hs (.of_start h)
  have hs1 := hskip.follows.sound hs
  rw [isFlatElse_eq] at hn ⊢
  dsimp only at hn ⊢
  -- had the separators used up the budget, the edge they lead to would have ended the search spent
  have hleft : (P.skipSeparators b s els.start).2.exhausted = false := by
    cases he : (P.skipSeparators b s els.start).2.exhausted with
    | false => rfl
    | true => rwa [if_pos (hskip.edge he), he] at hn
  have ht := hskip.fst_eq hleft
  cases hd : rev.dropWhile (·.kind = .separator) with
  | nil =>
    rw [hd] at ht
    rw [ht, flatAfter, hd]
    rfl
  | cons t rev' =>
    obtain ⟨base, first, rest, seps, hrev, hfirst, hseps, hflat⟩ := exists_statement hd
    rw [hd, List.head?_cons, Option.getD_some] at ht
    have hsplit : P.dialect.tokenize b.text = rev'.reverse ++ t ::
        ((rev.takeWhile (·.kind = .separator)).reverse ++ els :: post) := by
      rw [h, reverse_of_dropWhile hd, List.append_assoc, List.cons_append]
    have hne : t.kind ≠ .edge := P.dialect.tokenize_ne_edge b.text t (by simp [hsplit])
    have hstart := statementStart_gives hs1 t (.of_start hsplit)
    rw [← hfirst] at hstart
    rw [ht, if_neg hne] at hn ⊢
    have hsplit' : P.dialect.tokenize b.text = base.reverse.reverse ++ first ::
        (rest ++ (seps ++ els :: post)) := by simp [h, hrev]
    -- what follows the first token of the statement is no block `if`, unless it is in the statement
    have hnext : (rest ++ (seps ++ els :: post)).head?.any (·.kind = .ifBlock) =
        rest.head?.any (·.kind = .ifBlock) := by
      cases rest with
      | cons x xs => rfl
      | nil =>
        cases seps with
        | nil => simp [hels]
        | cons x xs => simp [hseps x (List.mem_cons_self ..)]
    generalize P.statementStart b (P.skipSeparators b s els.start).2 t t.start = q at hn hstart ⊢
    have hs2 := hstart.follows.sound hs1
    rw [hflat]
    by_cases h1 : q.1.kind = .ifLine
    · rw [if_pos h1] at hn ⊢
      rw [hstart.fst_eq hn] at h1
      simp [h1]
    · rw [if_neg h1] at hn ⊢
      by_cases h2 : q.1.kind = .elseLine
      · rw [if_pos h2] at hn ⊢
        have hq := hstart.fst_eq ((continuesIf_follows hs2 q.1).not_exhausted hn)
        rw [hq] at h2 hn ⊢
        have hcont := (continuesIf_gives hs2 hsplit').1.fst_eq hn
        simp only [hcont, Token.continuesBetween, h2, hnext, reduceCtorEq, decide_false, decide_true,
          Bool.false_or, Bool.true_and]
      · rw [if_neg h2] at hn ⊢
        rw [hstart.fst_eq hn] at h1 h2
        simp [h1, h2]

/-! ## Walking ahead -/

theorem closerAfter_eq (s : Scanner) (pending : List Token) (p : Nat) :
    P.closerAfter b s pending p =
      let r := s.next P.dialect b p
      if r.1.kind = .edge then (none, r.2)
      else
        let q := P.roleInContext b r.2 r.1
        match q.1 with
        | .opener => P.closerAfter b q.2 (r.1 :: pending) r.1.stop
        | .closer =>
          match popFirst (P.accepts · r.1) pending with
          | some (_, []) => (some r.1, q.2)
          | some (_, rest) => P.closerAfter b q.2 rest r.1.stop
          | none => P.closerAfter b q.2 pending r.1.stop
        | _ => P.closerAfter b q.2 pending r.1.stop :=
  closerAfter.eq_def P b s pending p

/-- Where the search for a closer goes on behind the token `x`, when `popped` of the open openers `pending`
    are what that token takes. -/
def behindCloser (s : Scanner) (pending : List Token) (x : Token) (popped : Option (Token × List Token)) :
    (Scanner × List Token × Nat) ⊕ (Option Token × Scanner) :=
  popped.elim (.inl (s, pending, x.stop)) fun taken =>
    if taken.2.isEmpty then .inr (some x, s) else .inl (s, taken.2, x.stop)

/-- Where the search for a closer goes on behind the token `x` in its role, with `pending` open. -/
def ahead (P : Profile) (s : Scanner) (pending : List Token) (role : Role) (x : Token) :
    (Scanner × List Token × Nat) ⊕ (Option Token × Scanner) :=
  match role with
  | .opener => .inl (s, x :: pending, x.stop)
  | .closer => behindCloser s pending x (popFirst (P.accepts · x) pending)
  | _ => .inl (s, pending, x.stop)

/-- The search for a closer is a step and what the step leads to. -/
theorem closerAfter_ahead (s : Scanner) (pending : List Token) (p : Nat) :
    P.closerAfter b s pending p =
      let r := s.next P.dialect b p
      let q := P.roleInContext b r.2 r.1
      if r.1.kind = .edge then (none, r.2)
      else (P.ahead q.2 pending q.1 r.1).elim (fun s => P.closerAfter b s.1 s.2.1 s.2.2) id := by
  rw [closerAfter_eq]
  dsimp only
  generalize P.roleInContext b (s.next P.dialect b p).2 (s.next P.dialect b p).1 = q
  by_cases hk : (s.next P.dialect b p).1.kind = .edge
  · rw [if_pos hk, if_pos hk]
  · rw [if_neg hk, if_neg hk]
    obtain ⟨role, s'⟩ := q
    cases role with
    | closer =>
      rw [ahead]
      dsimp only
      cases popFirst (P.accepts · (s.next P.dialect b p).1) pending with
      | none => rfl
      | some popped =>
        obtain ⟨o, _ | ⟨o', rest⟩⟩ := popped <;> rfl
    | _ => rfl

/-- The same of the search over the tokens, which needs no scanner. -/
theorem closerIn_ahead (P : Profile) (s : Scanner) (previous : Option Token) (pending : List Token)
    (t : Token) (ts : List Token) :
    P.closerIn previous pending (t :: ts) =
      (P.ahead s pending (t.roleAfter previous) t).elim (fun r => P.closerIn (some t) r.2.1 ts) Prod.fst := by
  rw [closerIn]
  generalize t.roleAfter previous = role
  cases role with
  | closer =>
    rw [ahead]
    dsimp only
    cases popFirst (P.accepts · t) pending with
    | none => rfl
    | some popped =>
      obtain ⟨o, _ | ⟨o', rest⟩⟩ := popped <;> rfl
  | _ => rfl

/-- **A step ahead** ends the search with a closer, which the bottom of the open openers accepts, or goes
    on behind its token and leaves the bottom where it is. -/
theorem ahead_cases (P : Profile) (s : Scanner) (pending : List Token) (role : Role) (x : Token) :
    (P.ahead s pending role x = .inr (some x, s) ∧ role = .closer ∧
      ∃ above o, pending = above ++ [o] ∧ P.accepts o x) ∨
    ∃ pending', P.ahead s pending role x = .inl (s, pending', x.stop) ∧
      ∀ o, pending.getLast? = some o → pending'.getLast? = some o := by
  cases role with
  | opener => exact .inr ⟨_, rfl, fun o ho => by rw [List.getLast?_cons, ho, Option.getD_some]⟩
  | inner => exact .inr ⟨_, rfl, fun o ho => ho⟩
  | neutral => exact .inr ⟨_, rfl, fun o ho => ho⟩
  | closer =>
    rw [ahead]
    cases hpop : popFirst (P.accepts · x) pending with
    | none => exact .inr ⟨_, rfl, fun o ho => ho⟩
    | some popped =>
      obtain ⟨o, _ | ⟨o', rest⟩⟩ := popped
      · obtain ⟨haccepts, above, hsplit⟩ := popFirst_split hpop
        exact .inl ⟨rfl, rfl, above, o, hsplit, haccepts⟩
      · obtain ⟨-, above, rfl⟩ := popFirst_split hpop
        refine .inr ⟨_, rfl, fun z hz => ?_⟩
        rw [List.getLast?_append, List.getLast?_cons_cons] at hz
        simpa using hz

/-- A step ahead where no token is left meets the edge. -/
theorem ahead_stop (hs : s.Sound P.dialect b) (h : P.dialect.Gap b.text p rev []) :
    (s.next P.dialect b p).1.kind = .edge := by
  have hnext := Scanner.next_spec hs p
  rw [h.tokenAfter] at hnext
  exact hnext.kind_eq_edge rfl

/-- A step ahead from a gap meets the nearest token after it. -/
theorem ahead_step (hs : s.Sound P.dialect b) (h : P.dialect.Gap b.text p rev (t :: post)) :
    P.Meets b s (s.next P.dialect b p) rev.head? t := by
  have hnext := Scanner.next_spec hs p
  rw [h.tokenAfter] at hnext
  exact meets_of_tells hs h.tokens hnext

/-- The search for a closer gives what it gives over the tokens. -/
theorem closerAfter_gives (hs : s.Sound P.dialect b) (pending : List Token)
    (h : P.dialect.Gap b.text p rev post) :
    s.Gives P.dialect b (P.closerAfter b s pending p) (P.closerIn rev.head? pending post) := by
  induction post generalizing s pending p rev with
  | nil =>
    rw [closerAfter_ahead]
    simp only [ahead_stop hs h, if_true]
    exact ⟨(Scanner.next_spec hs p).follows, fun _ => rfl⟩
  | cons t post ih =>
    obtain ⟨hfollows, hstep⟩ := ahead_step hs h
    rw [closerAfter_ahead]
    rcases hstep with ⟨he, hk⟩ | ⟨-, ht, hne, hrole, -⟩
    · simp only [hk, if_true]
      exact ⟨hfollows, fun h' => absurd h' (by simp [he])⟩
    · simp only [ht, hne, if_false]
      have hsound := hrole.follows.sound (hfollows.sound hs)
      generalize P.roleInContext b (s.next P.dialect b p).2 t = q at hrole hsound ⊢
      have hsearch := P.closerIn_ahead q.2 rev.head? pending t post
      rcases P.ahead_cases q.2 pending q.1 t with ⟨hahead, -⟩ | ⟨pending', hahead, -⟩
      · rw [hahead]
        refine ⟨hfollows.trans hrole.follows, fun hn => ?_⟩
        rw [hsearch, ← hrole.fst_eq hn, hahead]
        rfl
      · rw [hahead]
        have hrest := ih hsound pending' h.ahead
        refine ⟨(hfollows.trans hrole.follows).trans hrest.follows, fun hn => ?_⟩
        rw [hsearch, ← hrole.fst_eq (hrest.follows.not_exhausted hn), hahead]
        exact hrest.fst_eq hn

/-! ## The answers -/

theorem scanner_sound (P : Profile) (b : Buffer) : P.scanner.Sound P.dialect b :=
  Scanner.sound_of_none rfl

theorem scanner_budget (h : P.layout.maxVisits = 0) : P.scanner.budget = none := by
  simp [scanner, h]

/-- The match of a token in the given role.  With the role named, a proof need not work it out. -/
theorem findMatch_of_role {role : Role} (h : (P.scanner.next P.dialect b p).1.kind.role = role) :
    P.findMatch b p =
      let r := P.scanner.next P.dialect b p
      let q := P.continuesIf b r.2 r.1
      if q.1 then (P.openerOf b q.2 r.1.asElse).1.map (⟨·, r.1⟩)
      else
        match role with
        | .opener => (P.closerOf b q.2 r.1).1.map (⟨r.1, ·⟩)
        | .neutral => none
        | _ =>
          let f := if r.1.kind = .elseBlock then P.isFlatElse b q.2 r.1 else (false, q.2)
          if f.1 then none else (P.openerOf b f.2 r.1).1.map (⟨·, r.1⟩) := by
  rw [findMatch]
  split
  next t s hnext =>
    rw [hnext] at h ⊢
    have hrole : t.kind.role = role := h
    split
    next continues s hcont =>
      rewrite [hrole]
      dsimp only
      rewrite [hcont]
      cases role <;> rfl

theorem findMatch_eq (p : Nat) :
    P.findMatch b p =
      let r := P.scanner.next P.dialect b p
      let q := P.continuesIf b r.2 r.1
      if q.1 then (P.openerOf b q.2 r.1.asElse).1.map (⟨·, r.1⟩)
      else
        match r.1.kind.role with
        | .opener => (P.closerOf b q.2 r.1).1.map (⟨r.1, ·⟩)
        | .neutral => none
        | _ =>
          let f := if r.1.kind = .elseBlock then P.isFlatElse b q.2 r.1 else (false, q.2)
          if f.1 then none else (P.openerOf b f.2 r.1).1.map (⟨·, r.1⟩) :=
  findMatch_of_role rfl

/-- Without a budget the match found is the match over the tokens. -/
theorem findMatch_eq_in (h0 : P.layout.maxVisits = 0) (h : P.dialect.Gap b.text p rev (t :: post)) :
    P.findMatch b p = P.matchIn rev t post := by
  have hnext := Scanner.next_spec (P.scanner_sound b) p
  obtain ⟨ht, hb⟩ := hnext.of_unlimited (scanner_budget h0)
  rw [h.tokenAfter, List.head?_cons, Option.getD_some] at ht
  have hs := hnext.follows.sound (P.scanner_sound b)
  have hcont := (continuesIf_gives hs h.tokens).1
  have hs' := hcont.follows.sound hs
  obtain ⟨hc, hb'⟩ := hcont.of_unlimited hb
  have hcut : P.dialect.Cut b.text t.start rev (t :: post) := .of_start h.tokens
  rw [findMatch_eq]
  simp only [ht]
  rw [hc, matchIn]
  generalize (P.continuesIf b (P.scanner.next P.dialect b p).2 t).2 = s at hs' hb' ⊢
  split
  · exact congrArg _ ((openerBefore_gives hs' _ hcut).of_unlimited hb').1
  · split
    · exact congrArg _ ((closerAfter_gives hs' _ (.of_stop h.tokens)).of_unlimited hb').1
    · rfl
    · by_cases hk : t.kind = .elseBlock
      · have hflat := isFlatElse_gives hs' hk h.tokens
        obtain ⟨hf, hb''⟩ := hflat.of_unlimited hb'
        simp only [hk, if_true, decide_true, Bool.true_and, hf]
        split
        · rfl
        · exact congrArg _ ((openerBefore_gives (hflat.follows.sound hs') _ hcut).of_unlimited hb'').1
      · simp only [hk, if_false, decide_false, Bool.false_and, Bool.false_eq_true]
        exact congrArg _ ((openerBefore_gives hs' _ hcut).of_unlimited hb').1

/-- Without a budget the constructs open at an offset are the unclosed openers before it. -/
theorem context_eq_in (h0 : P.layout.maxVisits = 0) (p : Nat) :
    P.context b p = (P.allUnclosedIn {} []
      ((P.dialect.tokenize b.text).filter (·.start < p)).reverse).map Token.construct := by
  obtain ⟨post, hcut⟩ := P.dialect.exists_cut b.text (min p b.size)
  rw [context, allUnclosedBefore_eq_in (P.scanner_sound b) (scanner_budget h0) _ hcut,
    P.dialect.filter_start_min]

end Profile

end BlockScript
