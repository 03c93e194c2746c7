/-
  Local searches agree with a full parse.

  A full parse reads the tokens from left to right with a stack of open constructs: an opener is pushed,
  a closer pops the top, and the `if` of an `else if ... then` line does neither.  A script is cleanly
  nested when the top of the stack accepts every closer that pops it; constructs may be left open.

  On such a script every search comes to what the parse says, although none of them sees more than the
  tokens on its way:

  1. **Backward** (`meet_nested`): the closers a search has collected are, from the top, those that pop
     the topmost part of the stack, so below them the search and the stack agree.
  2. **Forward** (`closerIn_eq`): the openers a search has collected are the stack above its opener, and
     that opener is popped by the closer the search stops at.

  `searches_agree_with_parse` puts both together.
-/
import BlockScript.Proofs.TokenSearch
import Mathlib.Data.List.Perm.Subperm

namespace BlockScript

/-! ## The parse -/

/-- What a parse has come to: the token read last, the open constructs, innermost first, and the pairs
    closed so far. -/
structure Parse where
  previous : Option Token := none
  stack : List Token := []
  pairs : List Pair := []
  deriving DecidableEq, Repr

namespace Parse

/-- The parse after one more token. -/
def read (q : Parse) (t : Token) : Parse :=
  match t.roleAfter q.previous, q.stack with
  | .opener, stack => { q with previous := some t, stack := t :: stack }
  | .closer, o :: stack => ⟨some t, stack, q.pairs ++ [⟨o, t⟩]⟩
  | _, _ => { q with previous := some t }

/-- Whether, in the tokens still to read, every closer is accepted by the innermost open construct. -/
def Nests (P : Profile) (q : Parse) : List Token → Prop
  | [] => True
  | t :: ts =>
    (t.kind.role = .closer → q.stack.head?.any (P.accepts · t)) ∧ (q.read t).Nests P ts

instance decidableNests (P : Profile) : (q : Parse) → (ts : List Token) → Decidable (q.Nests P ts)
  | _, [] => .isTrue trivial
  | q, t :: ts =>
    have := decidableNests P (q.read t) ts
    inferInstanceAs (Decidable (_ ∧ _))

end Parse

/-- The parse of a list of tokens. -/
def parse (ts : List Token) : Parse := ts.foldl Parse.read {}

/-- Whether a list of tokens is cleanly nested. -/
def Profile.CleanlyNested (P : Profile) (ts : List Token) : Prop := Parse.Nests P {} ts

instance (P : Profile) (ts : List Token) : Decidable (P.CleanlyNested ts) :=
  inferInstanceAs (Decidable (Parse.Nests P {} ts))

/-! ## Roles -/

namespace Token

variable {t : Token} {previous : Option Token}

/-- Among the closers no role depends on the token before. -/
theorem roleAfter_eq_closer : t.roleAfter previous = .closer ↔ t.kind.role = .closer := by
  unfold roleAfter
  split
  · next h => simp [h.1, TokenKind.role_eq]
  · rfl

/-- A keyword that keeps the role of its kind, and has one, does not continue a block. -/
theorem continuesBetween_eq_false (h : t.roleAfter previous = t.kind.role)
    (hn : t.kind.role ≠ .neutral) (next : Option Token) :
    t.continuesBetween previous next = false := by
  unfold continuesBetween
  split
  · next hk =>
    rw [roleAfter, hk] at h
    by_contra hc
    rw [if_pos ⟨rfl, by simpa using hc⟩, TokenKind.role_eq] at h
    cases h
  · next hk => exact absurd (by rw [hk, TokenKind.role_eq]) hn
  · rfl

end Token

namespace Parse

variable {P : Profile} {q : Parse} {t : Token} {ts : List Token}

/-! ## Steps of a parse -/

theorem read_previous (q : Parse) (t : Token) : (q.read t).previous = some t := by
  unfold read
  split <;> rfl

theorem read_opener (h : t.roleAfter q.previous = .opener) :
    q.read t = { q with previous := some t, stack := t :: q.stack } := by
  simp only [read, h]

theorem read_closer {o : Token} {stack : List Token} (h : t.roleAfter q.previous = .closer)
    (hs : q.stack = o :: stack) : q.read t = ⟨some t, stack, q.pairs ++ [⟨o, t⟩]⟩ := by
  simp only [read, h, hs]

theorem read_other (ho : t.roleAfter q.previous ≠ .opener) (hc : t.roleAfter q.previous ≠ .closer) :
    q.read t = { q with previous := some t } := by
  unfold read
  split
  · exact absurd ‹_› ho
  · exact absurd ‹_› hc
  · rfl

/-- A parse moves in one of three ways: it pushes an opener, pops the top, which accepts the closer, or
    leaves the stack alone. -/
theorem read_cases (h : q.Nests P (t :: ts)) :
    (t.roleAfter q.previous = .opener ∧
      q.read t = { q with previous := some t, stack := t :: q.stack }) ∨
    (t.roleAfter q.previous = .closer ∧ ∃ o stack, q.stack = o :: stack ∧ P.accepts o t ∧
      q.read t = ⟨some t, stack, q.pairs ++ [⟨o, t⟩]⟩) ∨
    (t.roleAfter q.previous ≠ .opener ∧ t.roleAfter q.previous ≠ .closer ∧
      q.read t = { q with previous := some t }) := by
  by_cases ho : t.roleAfter q.previous = .opener
  · exact .inl ⟨ho, read_opener ho⟩
  · by_cases hc : t.roleAfter q.previous = .closer
    · obtain ⟨o, hhead, hacc⟩ := Option.any_eq_true _ _ |>.1 (h.1 (Token.roleAfter_eq_closer.1 hc))
      obtain ⟨stack, hs⟩ := List.head?_eq_some_iff.1 hhead
      exact .inr (.inl ⟨hc, o, stack, hs, hacc, read_closer hc hs⟩)
    · exact .inr (.inr ⟨ho, hc, read_other ho hc⟩)

theorem nests_append (q : Parse) (xs ys : List Token) :
    q.Nests P (xs ++ ys) ↔ q.Nests P xs ∧ (xs.foldl read q).Nests P ys := by
  induction xs generalizing q with
  | nil => simp [Nests]
  | cons x xs ih => simp only [List.cons_append, Nests, ih, List.foldl_cons, and_assoc]

/-- Reading closes at most new pairs. -/
theorem pairs_read (q : Parse) (t : Token) : ∃ new, (q.read t).pairs = q.pairs ++ new := by
  unfold read
  split
  · exact ⟨[], by simp⟩
  · exact ⟨_, rfl⟩
  · exact ⟨[], by simp⟩

/-- Pairs once closed stay. -/
theorem exists_pairs {f : Parse → Token → Parse} (hf : ∀ q t, ∃ new, (f q t).pairs = q.pairs ++ new)
    (q : Parse) (ts : List Token) : ∃ more, (ts.foldl f q).pairs = q.pairs ++ more := by
  induction ts generalizing q with
  | nil => exact ⟨[], by simp⟩
  | cons t ts ih =>
    obtain ⟨more, hmore⟩ := ih (f q t)
    obtain ⟨new, hnew⟩ := hf q t
    exact ⟨new ++ more, by rw [List.foldl_cons, hmore, hnew, List.append_assoc]⟩

/-! ## Every opener is open or closed, once -/

/-- The openers a parse has met, open or closed. -/
def openers (q : Parse) : List Token := q.stack ++ q.pairs.map (·.opener)

theorem openers_read (q : Parse) (t : Token) : (q.read t).openers.Subperm (t :: q.openers) := by
  unfold read
  split
  · exact .refl _
  · next hs =>
    simp only [openers, hs, List.map_append, List.map_cons, List.map_nil]
    refine List.Subperm.trans (List.Perm.subperm ?_) (List.sublist_cons_self ..).subperm
    rw [← List.append_assoc]
    exact List.perm_append_comm
  · exact (List.sublist_cons_self ..).subperm

section

-- a way to read a token that adds at most that token to the openers met
variable {f : Parse → Token → Parse} (hf : ∀ q t, (f q t).openers.Subperm (t :: q.openers))

include hf

/-- Reading keeps apart the openers met and the tokens to come. -/
theorem nodup_step (hn : (t :: ts ++ q.openers).Nodup) : (ts ++ (f q t).openers).Nodup := by
  have hsub : (ts ++ (f q t).openers).Subperm (t :: ts ++ q.openers) :=
    ((List.subperm_append_left ts).2 (hf q t)).trans List.perm_middle.subperm
  obtain ⟨l, hperm, hl⟩ := hsub
  exact hperm.nodup_iff.1 (hn.sublist hl)

theorem nodup_foldl {xs : List Token} (hn : (xs ++ (ts ++ q.openers)).Nodup) :
    (ts ++ (xs.foldl f q).openers).Nodup := by
  induction xs generalizing q with
  | nil => exact hn
  | cons x xs ih =>
    refine ih ?_
    rw [← List.append_assoc] at hn ⊢
    exact nodup_step hf hn

/-- An opener met was met before or is among the tokens read. -/
theorem mem_openers_foldl {o : Token} (ho : o ∈ (ts.foldl f q).openers) : o ∈ ts ∨ o ∈ q.openers := by
  induction ts generalizing q with
  | nil => exact Or.inr ho
  | cons t ts ih =>
    rcases ih ho with h | h
    · exact Or.inl (List.mem_cons_of_mem _ h)
    · rcases List.mem_cons.1 ((hf q t).subset h) with rfl | h
      · exact Or.inl (List.mem_cons_self ..)
      · exact Or.inr h

end

/-- A construct that is still open has no pair yet. -/
theorem find?_pairs_eq_none {o : Token} (hn : q.openers.Nodup) (ho : o ∈ q.stack) :
    q.pairs.find? (·.opener = o) = none := by
  refine List.find?_eq_none.2 fun pair hpair => ?_
  have hdisj := (List.nodup_append.1 hn).2.2 o ho pair.opener (List.mem_map_of_mem hpair)
  simpa using fun h => hdisj h.symm

/-- A closer that pops a construct makes its pair, and that pair stays the only one of the construct. -/
theorem find?_pairs_read {o : Token} {stack : List Token} (hn : q.openers.Nodup)
    (hr : t.roleAfter q.previous = .closer) (hs : q.stack = o :: stack) (post : List Token) :
    (post.foldl read (q.read t)).pairs.find? (·.opener = o) = some ⟨o, t⟩ := by
  have hnone : q.pairs.find? (·.opener = o) = none := find?_pairs_eq_none hn (by simp [hs])
  obtain ⟨more, hmore⟩ := exists_pairs pairs_read (q.read t) post
  rw [hmore, read_closer hr hs, List.find?_append, List.find?_append, hnone]
  simp

end Parse

/-! ## Backward -/

theorem parse_snoc (rev : List Token) (t : Token) :
    parse (t :: rev).reverse = (parse rev.reverse).read t := by
  rw [parse, List.reverse_cons, List.foldl_append]
  rfl

/-- The token read last is the nearest of those before. -/
theorem parse_previous (rev : List Token) : (parse rev.reverse).previous = rev.head? := by
  cases rev with
  | nil => rfl
  | cons t rev =>
    rw [parse_snoc]
    exact Parse.read_previous _ t

/-- What is open is among the tokens read. -/
theorem mem_of_mem_stack {ts : List Token} {o : Token} (h : o ∈ (parse ts).stack) : o ∈ ts := by
  rcases Parse.mem_openers_foldl Parse.openers_read (List.mem_append_left _ h) with h | h
  · exact h
  · cases h

namespace Profile

variable {P : Profile} {rev post : List Token} {t : Token}

theorem CleanlyNested.of_append {xs ys : List Token} (h : P.CleanlyNested (xs ++ ys)) :
    P.CleanlyNested xs := ((Parse.nests_append _ xs ys).1 h).1

/-- What the last token did to the parse of a cleanly nested list. -/
theorem CleanlyNested.last (h : P.CleanlyNested (t :: rev).reverse) :
    Parse.Nests P (parse rev.reverse) [t] := by
  rw [List.reverse_cons] at h
  exact ((Parse.nests_append _ _ _).1 h).2

/-- One step back over a cleanly nested list, with the closers `ps` of the topmost constructs `os` of
    the stack collected above those in `cs`: either `os` and `ps` stay partners of each other while the
    stack below them does not change, or none are collected and `t` is the innermost open construct. -/
theorem meet_nested (h : P.CleanlyNested (t :: rev).reverse) {os ps base : List Token}
    (hstack : (parse (t :: rev).reverse).stack = os ++ base) (hps : List.Forall₂ (P.accepts · ·) os ps)
    (cs : List Token) (m : Option (Token × Token)) :
    (∃ os' ps' m', (parse rev.reverse).stack = os' ++ base ∧ List.Forall₂ (P.accepts · ·) os' ps' ∧
      P.meet ⟨ps ++ cs, m⟩ (t.roleAfter rev.head?) t = (⟨ps' ++ cs, m'⟩, false)) ∨
    (t.roleAfter rev.head? = .opener ∧ ps = [] ∧ base = t :: (parse rev.reverse).stack) := by
  have hstep := Parse.read_cases h.last
  rw [parse_snoc] at hstack
  rw [parse_previous] at hstep
  rcases hstep with ⟨hr, hread⟩ | ⟨hr, o, stack, hs, hacc, hread⟩ | ⟨ho, hc, hread⟩
  · -- an opener: the topmost closer collected is its own, or it is open and none is collected
    rw [hread] at hstack
    cases hps with
    | nil => exact .inr ⟨hr, rfl, hstack.symm⟩
    | @cons _ c os' ps' hacc hrest =>
      obtain ⟨rfl, hbelow⟩ := List.cons.inj hstack
      refine .inl ⟨os', ps', m <|> if P.namesDiffer t c then some (t, c) else none, hbelow, hrest, ?_⟩
      rw [hr]
      exact meet_takes (popFirst_cons_of_pos hacc (ps' ++ cs))
  · -- a closer: it is collected, and the construct it pops is back on the stack
    rw [hread] at hstack
    refine .inl ⟨o :: os, t :: ps, m, ?_, .cons hacc hps, by simp [meet, hr]⟩
    rw [hs, List.cons_append]
    exact congrArg _ hstack
  · rw [hread] at hstack
    refine .inl ⟨os, ps, m, hstack, hps, ?_⟩
    unfold meet
    split
    · exact absurd ‹_› hc
    · exact absurd ‹_› ho
    · rfl

/-- **The search for an opener finds the innermost open construct that accepts the closer.** -/
theorem openerIn_eq (h : P.CleanlyNested rev.reverse) {os ps base : List Token}
    (hstack : (parse rev.reverse).stack = os ++ base) (hps : List.Forall₂ (P.accepts · ·) os ps)
    (m : Option (Token × Token)) (c : Token) :
    P.openerIn ⟨ps ++ [c], m⟩ rev = base.find? (P.accepts · c) := by
  induction rev generalizing os ps base m with
  | nil =>
    obtain ⟨-, rfl⟩ := List.append_eq_nil_iff.1 hstack.symm
    rfl
  | cons t rev ih =>
    have hrev : P.CleanlyNested rev.reverse := .of_append (List.reverse_cons ▸ h)
    rcases meet_nested h hstack hps [c] m with ⟨os', ps', m', hstack', hps', hmeet⟩ | ⟨hr, rfl, rfl⟩
    · simp only [openerIn, hmeet]
      rw [if_neg (by simp)]
      exact ih hrev hstack' hps' m'
    · obtain rfl : os = [] := by cases hps; rfl
      rw [openerIn, hr, List.nil_append]
      by_cases hacc : P.accepts t c
      · have hmeet := meet_takes (w := ⟨[c], m⟩) (popFirst_cons_of_pos hacc [])
        rw [hmeet, List.find?_cons_of_pos (p := (P.accepts · c)) hacc]
        rfl
      · have hmeet := meet_leaves (w := ⟨[c], m⟩) (popFirst_cons_of_neg hacc [])
        rw [hmeet, if_neg (by simp), List.find?_cons_of_neg (p := (P.accepts · c)) hacc]
        exact ih hrev (List.nil_append _).symm .nil m

/-- **The unclosed openers are the stack.** -/
theorem allUnclosedIn_eq (h : P.CleanlyNested rev.reverse) {os ps base : List Token}
    (hstack : (parse rev.reverse).stack = os ++ base) (hps : List.Forall₂ (P.accepts · ·) os ps)
    (m : Option (Token × Token)) (inner : List Token) :
    P.allUnclosedIn ⟨ps, m⟩ inner rev = base.reverse ++ inner := by
  induction rev generalizing os ps base m inner with
  | nil =>
    obtain ⟨-, rfl⟩ := List.append_eq_nil_iff.1 hstack.symm
    rfl
  | cons t rev ih =>
    have hrev : P.CleanlyNested rev.reverse := .of_append (List.reverse_cons ▸ h)
    rcases meet_nested h hstack hps [] m with ⟨os', ps', m', hstack', hps', hmeet⟩ | ⟨hr, rfl, rfl⟩
    · simp only [List.append_nil] at hmeet
      simp only [allUnclosedIn, hmeet, Bool.false_eq_true, if_false]
      exact ih hrev hstack' hps' m' inner
    · have hrest := ih hrev (List.nil_append _).symm .nil m (t :: inner)
      rw [List.reverse_cons, List.append_assoc, List.singleton_append, ← hrest, allUnclosedIn, hr]
      rfl

/-- The nearest unclosed opener is the innermost of them all. -/
theorem getLast?_allUnclosedIn (w : Walk) (inner rev : List Token) :
    (P.allUnclosedIn w inner rev).getLast? = inner.getLast?.or (P.unclosedIn w rev).1 := by
  induction rev generalizing w inner with
  | nil => exact (Option.or_none).symm
  | cons t rev ih =>
    rw [allUnclosedIn, unclosedIn]
    cases hmeet : P.meet w (t.roleAfter rev.head?) t with
    | mk w' unclosed =>
      cases unclosed with
      | false => exact ih w' inner
      | true =>
        show (P.allUnclosedIn w' (t :: inner) rev).getLast? = inner.getLast?.or (some t)
        rw [ih, List.getLast?_cons, Option.some_or]
        cases inner.getLast? <;> rfl

/-- **The nearest unclosed opener is the top of the stack**, also while closers `cs` wait that it does not
    accept. -/
theorem unclosedIn_eq (h : P.CleanlyNested rev.reverse) {os ps base : List Token}
    (hstack : (parse rev.reverse).stack = os ++ base) (hps : List.Forall₂ (P.accepts · ·) os ps)
    {cs : List Token} (hcs : ∀ o, base.head? = some o → popFirst (P.accepts o) cs = none)
    (m : Option (Token × Token)) : (P.unclosedIn ⟨ps ++ cs, m⟩ rev).1 = base.head? := by
  induction rev generalizing os ps m with
  | nil =>
    obtain ⟨-, rfl⟩ := List.append_eq_nil_iff.1 hstack.symm
    rfl
  | cons t rev ih =>
    have hrev : P.CleanlyNested rev.reverse := .of_append (List.reverse_cons ▸ h)
    rcases meet_nested h hstack hps cs m with ⟨os', ps', m', hstack', hps', hmeet⟩ | ⟨hr, rfl, rfl⟩
    · simp only [unclosedIn, hmeet, Bool.false_eq_true, if_false]
      exact ih hrev hstack' hps' m'
    · have hmeet := meet_leaves (w := ⟨cs, m⟩) (hcs t rfl)
      rw [unclosedIn, hr, List.nil_append, hmeet]
      rfl

theorem unclosedIn_nested (h : P.CleanlyNested (rev.reverse ++ post)) :
    (P.unclosedIn {} rev).1 = (parse rev.reverse).stack.head? := by
  have hfound : (P.unclosedIn ⟨[] ++ [], none⟩ rev).1 = _ :=
    unclosedIn_eq h.of_append (List.nil_append _).symm .nil (fun _ _ => rfl) none
  exact hfound

/-! ## Forward -/

theorem closerIn_closer {previous : Option Token} (hr : t.roleAfter previous = .closer)
    (pending post : List Token) :
    P.closerIn previous pending (t :: post) =
      match popFirst (P.accepts · t) pending with
      | some (_, []) => some t
      | some (_, rest) => P.closerIn (some t) rest post
      | none => P.closerIn (some t) pending post := by
  have h := closerIn.eq_2 P previous pending t post
  rw [hr] at h
  exact h

/-- A closer that the opener on top accepts ends the search if no other opener is open. -/
theorem closerIn_pops {previous : Option Token} {x : Token} (hr : t.roleAfter previous = .closer)
    (hacc : P.accepts x t) (pending post : List Token) :
    P.closerIn previous (x :: pending) (t :: post) =
      if pending.isEmpty then some t else P.closerIn (some t) pending post := by
  have hpop : popFirst (P.accepts · t) (x :: pending) = some (x, pending) :=
    popFirst_cons_of_pos (f := (P.accepts · t)) hacc pending
  rw [closerIn_closer hr, hpop]
  cases pending <;> rfl

/-- **The search for a closer finds the one that pops the opener.** -/
theorem closerIn_eq {q : Parse} (h : q.Nests P post) (hn : (post ++ q.openers).Nodup)
    {above below : List Token} {o : Token} (hstack : q.stack = above ++ o :: below) :
    (P.closerIn q.previous (above ++ [o]) post).map (Pair.mk o) =
      (post.foldl Parse.read q).pairs.find? (·.opener = o) := by
  have hopen : q.pairs.find? (·.opener = o) = none :=
    Parse.find?_pairs_eq_none (List.nodup_append.1 hn).2.1 (by simp [hstack])
  induction post generalizing q above with
  | nil => simp [closerIn, hopen]
  | cons t post ih =>
    have hn' := Parse.nodup_step Parse.openers_read hn
    -- as long as `o` stays open the search goes on, with what the stack has above it
    have hgoes : ∀ {above'}, (q.read t).stack = above' ++ o :: below →
        (P.closerIn (some t) (above' ++ [o]) post).map (Pair.mk o) =
          ((t :: post).foldl Parse.read q).pairs.find? (·.opener = o) := by
      intro above' hs
      have hrest := ih h.2 hn' hs
        (Parse.find?_pairs_eq_none (List.nodup_append.1 hn').2.1 (by simp [hs]))
      rwa [Parse.read_previous] at hrest
    rcases Parse.read_cases h with ⟨hr, hread⟩ | ⟨hr, x, stack, hs, hacc, hread⟩ | ⟨ho, hc, hread⟩
    · have hs' : (q.read t).stack = (t :: above) ++ o :: below := by rw [hread, hstack, List.cons_append]
      simp only [closerIn, hr]
      exact hgoes hs'
    · rw [hs] at hstack
      cases above with
      | nil =>
        -- the opener is on top: this closer pops it
        obtain ⟨rfl, rfl⟩ := List.cons.inj hstack
        rw [List.nil_append, closerIn_pops hr hacc, List.foldl_cons,
          Parse.find?_pairs_read (List.nodup_append.1 hn).2.1 hr hs]
        rfl
      | cons y above =>
        obtain ⟨rfl, rfl⟩ := List.cons.inj hstack
        have hs' : (q.read t).stack = above ++ o :: below := by rw [hread]; rfl
        rw [← hgoes hs', List.cons_append, closerIn_pops hr hacc, if_neg (by simp)]
    · have hs' : (q.read t).stack = above ++ o :: below := by rw [hread, hstack]
      rw [← hgoes hs', closerIn]
      split
      · exact absurd ‹_› ho
      · exact absurd ‹_› hc
      · rfl

/-! ## The answers -/

theorem matchIn_opener (h : t.roleAfter rev.head? = .opener) :
    P.matchIn rev t post = (P.closerIn (some t) [t] post).map (⟨t, ·⟩) := by
  have hrole : t.kind.role = .opener := by
    unfold Token.roleAfter at h
    split at h
    · cases h
    · exact h
  rw [matchIn, Token.continuesBetween_eq_false (h.trans hrole.symm) (by simp [hrole]), hrole]
  rfl

theorem matchIn_closer (h : t.kind.role = .closer) :
    P.matchIn rev t post = (P.openerIn { pending := [t] } rev).map (⟨·, t⟩) := by
  have hafter : t.roleAfter rev.head? = .closer := Token.roleAfter_eq_closer.2 h
  have hk : t.kind ≠ .elseBlock := fun hk => by simp [hk, TokenKind.role_eq] at h
  rw [matchIn, Token.continuesBetween_eq_false (hafter.trans h.symm) (by simp [h]), h]
  simp [hk]

theorem matchIn_inner (h : t.kind.role = .inner) (hflat : t.kind = .elseBlock → flatAfter rev = false) :
    P.matchIn rev t post = (P.openerIn { pending := [t] } rev).map (⟨·, t⟩) := by
  have hafter : t.roleAfter rev.head? = t.kind.role :=
    if_neg fun hk => by simp [hk.1, TokenKind.role_eq] at h
  rw [matchIn, Token.continuesBetween_eq_false hafter (by simp [h]), h]
  by_cases hk : t.kind = .elseBlock
  · simp [hk, hflat hk]
  · simp [hk]

variable {b : Buffer}

/-- In a cleanly nested script the search back from `c` finds the innermost open construct that
    accepts it. -/
theorem openerIn_eq_find? (h : P.CleanlyNested (rev.reverse ++ post)) (c : Token) :
    P.openerIn { pending := [c] } rev = (parse rev.reverse).stack.find? (P.accepts · c) :=
  openerIn_eq h.of_append (List.nil_append _).symm .nil none c

/-- In a cleanly nested script the search ahead from an opener finds the closer of its pair. -/
theorem matchIn_opener_eq (h : P.CleanlyNested (rev.reverse ++ t :: post))
    (hn : (rev.reverse ++ t :: post).Nodup) (hr : t.roleAfter rev.head? = .opener) :
    P.matchIn rev t post = (parse (rev.reverse ++ t :: post)).pairs.find? (·.opener = t) := by
  have hrest := ((Parse.nests_append _ _ _).1 h).2.2
  have hprev := parse_previous rev
  have hread := Parse.read_opener (hprev ▸ hr)
  have hstack : ((parse rev.reverse).read t).stack = [] ++ t :: (parse rev.reverse).stack := by
    rw [hread, List.nil_append]
  have hnodup : (post ++ ((parse rev.reverse).read t).openers).Nodup := by
    refine Parse.nodup_step Parse.openers_read (Parse.nodup_foldl Parse.openers_read ?_)
    simpa [Parse.openers] using hn
  have hcloser := closerIn_eq hrest hnodup hstack
  rw [Parse.read_previous, List.nil_append] at hcloser
  rw [matchIn_opener hr, parse, List.foldl_append, List.foldl_cons]
  exact hcloser

/-- In a cleanly nested script a closer is paired with the innermost open construct, and the search
    back from it finds that pair. -/
theorem matchIn_closer_eq (h : P.CleanlyNested (rev.reverse ++ t :: post))
    (hn : (rev.reverse ++ t :: post).Nodup) (hr : t.kind.role = .closer) :
    ∃ o, (parse rev.reverse).stack.head? = some o ∧
      (parse (rev.reverse ++ t :: post)).pairs.find? (·.opener = o) = some ⟨o, t⟩ ∧
      P.matchIn rev t post = some ⟨o, t⟩ := by
  have hnest : (parse rev.reverse).Nests P (t :: post) := ((Parse.nests_append _ _ _).1 h).2
  obtain ⟨o, hhead, hacc⟩ := (Option.any_eq_true _ _).1 (hnest.1 hr)
  obtain ⟨stack, hstack⟩ := List.head?_eq_some_iff.1 hhead
  refine ⟨o, hhead, ?_, ?_⟩
  · have hnodup : (t :: post ++ (parse rev.reverse).openers).Nodup := by
      refine Parse.nodup_foldl Parse.openers_read ?_
      simpa [Parse.openers] using hn
    rw [parse, List.foldl_append, List.foldl_cons]
    exact Parse.find?_pairs_read (List.nodup_append.1 hnodup).2.1 (Token.roleAfter_eq_closer.2 hr) hstack post
  · have hfind : (parse rev.reverse).stack.find? (P.accepts · t) = some o := by
      rw [hstack]
      exact List.find?_cons_of_pos hacc
    rw [matchIn_closer hr, openerIn_eq_find? h, hfind]
    rfl

/-- In a cleanly nested script the constructs open at an offset are the stack of the parse there. -/
theorem allUnclosedIn_eq_stack {ts : List Token} (h : P.CleanlyNested (ts ++ post)) :
    P.allUnclosedIn {} [] ts.reverse = (parse ts).stack.reverse := by
  have hts : P.CleanlyNested ts.reverse.reverse := by
    rw [List.reverse_reverse]
    exact h.of_append
  have hall := allUnclosedIn_eq hts (List.nil_append _).symm .nil none []
  rwa [List.append_nil, List.reverse_reverse] at hall

/-- **Local searches agree with a full parse.**  In a cleanly nested script, without a bound on the
    searches: an opener is matched with the closer that pops it, if any; a closer with the opener it
    pops; a header keyword, an `else` that is not flat, and the `else` and the `if` of a block
    `else if` line with the innermost open construct that accepts them; and the constructs open at an
    offset are the stack after the tokens that start before it. -/
theorem searches_agree_with_parse (P : Profile) (b : Buffer) (hlimit : P.layout.maxVisits = 0)
    (hclean : P.CleanlyNested (P.tokenize b.text)) :
    (∀ pre t post, P.tokenize b.text = pre ++ t :: post →
      ∀ p, (∀ x ∈ pre, x.stop ≤ p) → p < t.stop →
        let stack := (parse pre).stack
        let pairs := (parse (P.tokenize b.text)).pairs
        (t.roleAfter pre.getLast? = .opener → P.findMatch b p = pairs.find? (·.opener = t)) ∧
        (t.kind.role = .closer → ∃ o, stack.head? = some o ∧
          pairs.find? (·.opener = o) = some ⟨o, t⟩ ∧ P.findMatch b p = some ⟨o, t⟩) ∧
        (t.kind ∈ [.assign, .toWord, .stepWord] ∨
            t.kind = .elseBlock ∧ flatAfter pre.reverse = false →
          P.findMatch b p = (stack.find? (P.accepts · t)).map (⟨·, t⟩)) ∧
        (t.continuesBetween pre.getLast? post.head? →
          P.findMatch b p = (stack.find? (P.accepts · t.asElse)).map (⟨·, t⟩))) ∧
    ∀ p, P.context b p =
      (parse ((P.tokenize b.text).filter (·.start < p))).stack.reverse.map Token.construct := by
  refine ⟨fun pre t post htokens p hpre hp => ?_, fun p => ?_⟩
  · obtain ⟨rev, rfl⟩ : ∃ rev : List Token, pre = rev.reverse := ⟨pre.reverse, by simp⟩
    have hgap : P.dialect.Gap b.text p rev (t :: post) :=
      .of_lt_stop htokens (fun x hx => hpre x (List.mem_reverse.2 hx)) hp
    have hn := (P.dialect.tokenize_laid b.text).nodup
    rw [show P.dialect.tokenize b.text = _ from htokens] at hn
    rw [htokens] at hclean
    rw [htokens, findMatch_eq_in hlimit hgap, List.getLast?_reverse, List.reverse_reverse]
    refine ⟨fun hr => matchIn_opener_eq hclean hn hr, fun hr => matchIn_closer_eq hclean hn hr,
      fun hk => ?_, fun hc => ?_⟩
    · have hrole : t.kind.role = .inner := by
        simp only [List.mem_cons, List.not_mem_nil, or_false] at hk
        rcases hk with (hk | hk | hk) | ⟨hk, -⟩ <;> rw [hk, TokenKind.role_eq]
      have hflat : t.kind = .elseBlock → flatAfter rev = false := by
        rintro he
        rcases hk with hk | ⟨-, hk⟩
        · simp [he] at hk
        · exact hk
      rw [matchIn_inner hrole hflat, openerIn_eq_find? hclean]
    · rw [matchIn, if_pos hc, openerIn_eq_find? hclean]
  · obtain ⟨post, hcut⟩ := P.dialect.exists_cut b.text p
    have htokens := hcut.tokens
    rw [List.reverse_reverse] at htokens
    have hpart : P.CleanlyNested ((P.dialect.tokenize b.text).filter (·.start < p) ++ post) := by
      rw [← htokens]
      exact hclean
    rw [context_eq_in hlimit, allUnclosedIn_eq_stack hpart]
    rfl

/-- A loop around a condition with an `else if`, whose `if` belongs to the block above it. -/
theorem searches_agree_with_parse_else_if :
    let P : Profile := { layout := { maxVisits := 0 } }
    let b := Buffer.ofText "for i = 1 to 2\nif a then\nelse if b then\nend if\nnext i\n".toList
    P.CleanlyNested (P.tokenize b.text) ∧
      P.findMatch b 30 = some ⟨⟨.ifBlock, 15, 17, none⟩, ⟨.ifBlock, 30, 32, none⟩⟩ ∧
      P.context b 40 = [⟨.forLoop, 0⟩, ⟨.ifBlock, 15⟩] := by
  intro P b
  -- one evaluation for all facts, as each one works out the table of blocks
  have hrun : P.CleanlyNested (P.tokenize b.text) ∧
      P.tokenize b.text = (P.tokenize b.text).take 12 ++
        ⟨.ifBlock, 30, 32, none⟩ :: (P.tokenize b.text).drop 13 ∧
      (∀ x ∈ (P.tokenize b.text).take 12, x.stop ≤ 30) ∧
      Token.continuesBetween ((P.tokenize b.text).take 12).getLast? ⟨.ifBlock, 30, 32, none⟩
        ((P.tokenize b.text).drop 13).head? ∧
      ((parse ((P.tokenize b.text).take 12)).stack.find?
        (P.accepts · (Token.asElse ⟨.ifBlock, 30, 32, none⟩))) = some ⟨.ifBlock, 15, 17, none⟩ ∧
      (parse ((P.tokenize b.text).filter (·.start < 40))).stack.reverse.map Token.construct =
        [⟨.forLoop, 0⟩, ⟨.ifBlock, 15⟩] := by
    decide +kernel
  obtain ⟨hclean, hsplit, hbefore, hcont, hfind, hstack⟩ := hrun
  obtain ⟨hmatch, hcontext⟩ := searches_agree_with_parse P b rfl hclean
  have hif := (hmatch _ _ _ hsplit 30 hbefore (by decide)).2.2.2 hcont
  rw [hfind] at hif
  exact ⟨hclean, hif, (hcontext 40).trans hstack⟩

end Profile

end BlockScript
