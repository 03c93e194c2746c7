/-
  The levels of a keyword tree as patterns.

  A level is written as one pattern, with a group for each of its literals.  `Pattern.matchesAt` lists the ways
  in which a pattern matches at a place, the one to prefer first: an alternative before those to its right, and
  more blanks before fewer.  `Pattern.search` takes the first way at the first place that has one.

  A group matches where its literal is present (`matchesAt_bounded`), so the ways in which the groups of a level
  match are the hits of its literals, in order (`map_pickHit_literalGroups`).  The main result is
  `search_levelPattern`: the group in the first match is what the level takes.
-/
import BlockScript.Proofs.KeywordLevels

namespace BlockScript

variable {ignoreCase : Bool}

/-! ## Patterns -/

/-- A regular expression, with what the levels of a keyword tree need. -/
inductive Pattern
  | empty
  | char (c : Char)
  | boundary
  | lineStart
  | blanks
  | seq (p q : Pattern)
  | alt (p q : Pattern)
  | group (number : Nat) (p : Pattern)

/-- A place in a text: the character before it, the text that follows, and its offset. -/
structure Spot where
  before : Option Char
  rest : Text
  offset : Nat

/-- The part of a text that a group took. -/
structure Capture where
  number : Nat
  start : Nat
  stop : Nat

/-- A way in which a pattern matches: where it ends, and what the groups took that had a part in it. -/
abbrev Way := Spot × List Capture

namespace Spot

/-- The places of a text, the first one first. -/
def onward (before : Option Char) (p : Nat) : Text → List Spot
  | [] => [⟨before, [], p⟩]
  | c :: cs => ⟨before, c :: cs, p⟩ :: onward (some c) (p + c.utf8Size) cs

/-- The places of a text that only spaces and tabs lead to, the last one first. -/
def overBlanks (before : Option Char) (p : Nat) : Text → List Spot
  | [] => [⟨before, [], p⟩]
  | c :: cs =>
    (if c = ' ' ∨ c = '\t' then overBlanks (some c) (p + c.utf8Size) cs else []) ++ [⟨before, c :: cs, p⟩]

/-- The place `n` characters further on. -/
def skip (x : Spot) (n : Nat) : Spot :=
  ⟨(x.rest.take n).getLast?.or x.before, x.rest.drop n, x.offset + Text.size (x.rest.take n)⟩

theorem skip_succ (before : Option Char) (c : Char) (cs : Text) (p n : Nat) :
    (Spot.mk before (c :: cs) p).skip (n + 1) = (Spot.mk (some c) cs (p + c.utf8Size)).skip n := by
  simp only [skip, List.take_succ_cons, List.drop_succ_cons, Text.size_cons, Nat.add_assoc, mk.injEq, and_self,
    and_true]
  cases hlast : (cs.take n).getLast? with
  | none => rw [List.getLast?_eq_none_iff.1 hlast]; rfl
  | some d => rw [List.getLast?_cons, hlast]; rfl

end Spot

namespace Pattern

/-- One pattern after the other. -/
def sequence (ps : List Pattern) : Pattern := ps.foldr seq empty

/-- One of the patterns, the first ones preferred. -/
def alternation : List Pattern → Pattern
  | [] => empty
  | [p] => p
  | p :: q :: ps => alt p (alternation (q :: ps))

/-- The ways to go on from where other ways end. -/
def andThen (ways : List Way) (next : Spot → List Way) : List Way :=
  ways.flatMap fun (y, taken) => (next y).map fun (z, more) => (z, taken ++ more)

/-- The ways in which a pattern matches at a place, the one to prefer first. -/
def matchesAt (ignoreCase : Bool) : Pattern → Spot → List Way
  | empty, x => [(x, [])]
  | char _, ⟨_, [], _⟩ => []
  | char c, ⟨_, d :: ds, p⟩ => if sameChar ignoreCase c d then [(⟨some d, ds, p + d.utf8Size⟩, [])] else []
  | boundary, x => if wordBoundary x.before x.rest.head? then [(x, [])] else []
  | lineStart, x => if x.before.isNone then [(x, [])] else []
  | blanks, x => (Spot.overBlanks x.before x.offset x.rest).map (·, [])
  | seq p q, x => andThen (p.matchesAt ignoreCase x) (q.matchesAt ignoreCase)
  | alt p q, x => p.matchesAt ignoreCase x ++ q.matchesAt ignoreCase x
  | group n p, x => (p.matchesAt ignoreCase x).map fun (y, taken) => (y, ⟨n, x.offset, y.offset⟩ :: taken)

/-- The way to prefer at the first place, from `x` on, where the pattern matches. -/
def search (ignoreCase : Bool) (p : Pattern) (x : Spot) : Option Way :=
  (Spot.onward x.before x.offset x.rest).findSome? fun y => (p.matchesAt ignoreCase y).head?

theorem andThen_assoc (ways : List Way) (f g : Spot → List Way) :
    andThen (andThen ways f) g = andThen ways fun y => andThen (f y) g := by
  simp only [andThen, List.flatMap_assoc, List.flatMap_map, List.map_flatMap, List.map_map, Function.comp_def,
    List.append_assoc]

theorem andThen_single (x : Spot) (next : Spot → List Way) : andThen [(x, [])] next = next x := by
  simp [andThen]

theorem andThen_places (places : List Spot) (next : Spot → List Way) :
    andThen (places.map (·, [])) next = places.flatMap next := by
  simp [andThen, List.flatMap_map]

theorem andThen_end (ways : List Way) : andThen ways (fun y => [(y, [])]) = ways := by
  simp [andThen]

theorem matchesAt_sequence_append (ps qs : List Pattern) (x : Spot) :
    (sequence (ps ++ qs)).matchesAt ignoreCase x =
      andThen ((sequence ps).matchesAt ignoreCase x) ((sequence qs).matchesAt ignoreCase) := by
  induction ps generalizing x with
  | nil => exact (andThen_single x _).symm
  | cons p ps ih =>
    show andThen (p.matchesAt ignoreCase x) ((sequence (ps ++ qs)).matchesAt ignoreCase) = _
    rw [funext ih]
    exact (andThen_assoc ..).symm

theorem matchesAt_sequence_single (p : Pattern) (x : Spot) :
    (sequence [p]).matchesAt ignoreCase x = p.matchesAt ignoreCase x :=
  andThen_end _

theorem matchesAt_alternation {ps : List Pattern} (hne : ps ≠ []) (x : Spot) :
    (alternation ps).matchesAt ignoreCase x = ps.flatMap fun p => p.matchesAt ignoreCase x := by
  induction ps with
  | nil => exact absurd rfl hne
  | cons p ps ih =>
    cases ps with
    | nil => simp [alternation]
    | cons q ps =>
      show p.matchesAt ignoreCase x ++ (alternation (q :: ps)).matchesAt ignoreCase x = _
      rw [ih (List.cons_ne_nil _ _)]
      rfl

/-- A search takes the first of all ways, place by place. -/
theorem search_eq_head? (p : Pattern) (x : Spot) :
    p.search ignoreCase x =
      ((Spot.onward x.before x.offset x.rest).flatMap (p.matchesAt ignoreCase)).head? :=
  List.head?_flatMap.symm

/-! ## Literals -/

/-- Whether a pattern has one way to match at `x`, which ends at `y` and takes part in no group, or none. -/
def Takes (ignoreCase : Bool) (p : Pattern) (x : Spot) (present : Bool) (y : Spot) : Prop :=
  p.matchesAt ignoreCase x = if present then [(y, [])] else []

theorem Takes.append {ps qs : List Pattern} {x y z : Spot} {b b' : Bool}
    (h : Takes ignoreCase (sequence ps) x b y) (h' : b = true → Takes ignoreCase (sequence qs) y b' z) :
    Takes ignoreCase (sequence (ps ++ qs)) x (b && b') z := by
  unfold Takes at h ⊢
  rw [matchesAt_sequence_append, h]
  cases b with
  | false => rfl
  | true =>
    rw [if_pos rfl, andThen_single, h' rfl]
    rfl

/-- The assertion of a word boundary where the character asks for one. -/
def edge (c : Option Char) : List Pattern := if c.any needsBoundary then [boundary] else []

theorem takes_edge (c : Option Char) (x : Spot) :
    Takes ignoreCase (sequence (edge c)) x (!c.any needsBoundary || wordBoundary x.before x.rest.head?) x := by
  unfold Takes edge
  cases c.any needsBoundary with
  | false => rfl
  | true => exact matchesAt_sequence_single boundary x

theorem takes_chars (l : Text) (x : Spot) :
    Takes ignoreCase (sequence (l.map char)) x (spelledAt ignoreCase l x.rest) (x.skip l.length) := by
  induction l generalizing x with
  | nil => rfl
  | cons a l ih =>
    obtain ⟨before, rest, p⟩ := x
    cases rest with
    | nil => rfl
    | cons c cs =>
      have hchar : Takes ignoreCase (sequence [char a]) ⟨before, c :: cs, p⟩ (sameChar ignoreCase a c)
          ⟨some c, cs, p + c.utf8Size⟩ := matchesAt_sequence_single (char a) _
      rw [List.length_cons, Spot.skip_succ]
      exact hchar.append fun _ => ih ⟨some c, cs, p + c.utf8Size⟩

/-- A literal, with word boundaries on the sides where it starts or ends a word. -/
def bounded (l : Text) : Pattern := sequence (edge l.head? ++ (l.map char ++ edge l.getLast?))

/-- **A literal matches where it is present**, and in one way only. -/
theorem matchesAt_bounded {l : Text} (hl : l ≠ []) (x : Spot) :
    Takes ignoreCase (bounded l) x (presentAt ignoreCase x.before x.rest l) (x.skip l.length) := by
  have hright : spelledAt ignoreCase l x.rest = true →
      Takes ignoreCase (sequence (edge l.getLast?)) (x.skip l.length)
        (!l.getLast?.any needsBoundary ||
          wordBoundary (x.rest.take l.length).getLast? (x.rest.drop l.length).head?) (x.skip l.length) := by
    intro hspelled
    have hbefore : (x.skip l.length).before = (x.rest.take l.length).getLast? := by
      -- a literal that is spelled here has a last character, so what is before `x` no longer counts
      have htake : x.rest.take l.length ≠ [] := by
        simp [hl, spelledAt_ne_nil hl hspelled]
      show (x.rest.take l.length).getLast?.or x.before = _
      rw [List.getLast?_eq_some_getLast htake, Option.some_or]
    rw [← hbefore]
    exact takes_edge _ _
  have hleft : Takes ignoreCase (sequence (edge l.head?)) x
      (!l.head?.any needsBoundary || wordBoundary x.before x.rest.head?) x := takes_edge _ _
  rw [presentAt, show (!l.isEmpty) = true by simpa using hl, Bool.true_and, Bool.and_comm (spelledAt ..),
    Bool.and_assoc]
  exact hleft.append fun _ => (takes_chars l x).append hright

end Pattern

/-! ## Levels -/

open Pattern in
/-- One of the literals, each in a group of its own. -/
def literalGroups (bs : List Branch) : Pattern :=
  alternation (bs.zipIdx.map fun (b, n) => sequence [group n (bounded b.literal)])

open Pattern in
theorem literalGroups_eq (bs : List Branch) : literalGroups bs =
    alternation ((bs.map Branch.literal).zipIdx.map fun (l, n) => sequence [group n (bounded l)]) := by
  rw [List.zipIdx_map, List.map_map]
  rfl

open Pattern in
/-- The pattern of a level. -/
def KeywordTree.levelPattern (t : KeywordTree) : Pattern :=
  sequence ((if t.anywhere then [] else [lineStart, blanks]) ++ [literalGroups t.children.toList])

/-- The hit of a way in which a level matches: the first group that had a part in it, and its literal. -/
def pickHit (bs : List Branch) (way : Way) : Option Hit := do
  let taken ← way.2.head?
  let b ← bs[taken.number]?
  return ⟨taken.start, taken.stop, b⟩

/-- The hits of all literals that are present at a place. -/
def hitsAt (ignoreCase : Bool) (bs : List Branch) (x : Spot) : List Hit :=
  (bs.filter fun b => presentAt ignoreCase x.before x.rest b.literal).map fun b =>
    ⟨x.offset, x.offset + Text.size (x.rest.take b.literal.length), b⟩

theorem head?_hitsAt (bs : List Branch) (x : Spot) :
    (hitsAt ignoreCase bs x).head? = hitHere ignoreCase bs x.before x.offset x.rest := by
  rw [hitsAt, List.head?_map, List.head?_filter]
  rfl

theorem hitsAt_eq_flatMap (bs : List Branch) (x : Spot) :
    hitsAt ignoreCase bs x = bs.flatMap fun b => hitsAt ignoreCase [b] x := by
  induction bs with
  | nil => rfl
  | cons b bs ih =>
    rw [List.flatMap_cons, ← ih, hitsAt, hitsAt, hitsAt, ← List.map_append, ← List.filter_append]
    rfl

/-- The first of some ways gives the first of the hits that they stand for. -/
theorem head?_bind_of_map_eq {ways : List Way} {hits : List Hit} {pick : Way → Option Hit}
    (h : ways.map pick = hits.map some) : ways.head?.bind pick = hits.head? := by
  cases ways with
  | nil => rw [List.map_eq_nil_iff.1 h.symm]; rfl
  | cons way ways =>
    cases hits with
    | nil => cases h
    | cons hit hits => exact (List.cons.inj h).1

section Level

variable {bs : List Branch} (hbs : bs ≠ []) (hne : ∀ b ∈ bs, b.literal ≠ [])

include hne

/-- The group of a literal gives the hit of the literal where it is present. -/
theorem map_pickHit_group {b : Branch} {n : Nat} (hb : bs[n]? = some b) (x : Spot) :
    ((Pattern.group n (.bounded b.literal)).matchesAt ignoreCase x).map (pickHit bs) =
      (hitsAt ignoreCase [b] x).map some := by
  have hbounded : Pattern.Takes ignoreCase (.bounded b.literal) x _ _ :=
    Pattern.matchesAt_bounded (hne b (List.mem_of_getElem? hb)) x
  rw [Pattern.matchesAt, hbounded, hitsAt, List.filter_cons]
  cases presentAt ignoreCase x.before x.rest b.literal with
  | false => rfl
  | true =>
    show [pickHit bs (_, [_])] = [some _]
    simp only [pickHit, List.head?_cons, Option.bind_eq_bind, Option.bind_some, hb]
    rfl

theorem hitHere_end (before : Option Char) (p : Nat) : hitHere ignoreCase bs before p [] = none := by
  have hlast : before.toList.getLast? = before := by cases before <;> rfl
  rw [← hlast]
  exact hitHere_nil hne

/-- The first hit of all places is the hit at the first column that has one. -/
theorem head?_hits_onward (before : Option Char) (p : Nat) (rest : Text) :
    ((Spot.onward before p rest).flatMap (hitsAt ignoreCase bs)).head? =
      hitAnywhere ignoreCase bs before p rest := by
  induction rest generalizing before p with
  | nil => rw [Spot.onward, List.flatMap_singleton, head?_hitsAt, hitAnywhere]; exact hitHere_end hne before p
  | cons c cs ih =>
    rw [Spot.onward, List.flatMap_cons, List.head?_append, head?_hitsAt, ih, hitAnywhere]
    cases hitHere ignoreCase bs before p (c :: cs) <;> rfl

/-- The first hit of the places behind blanks, the last of them first. -/
theorem head?_hits_overBlanks (before : Option Char) (p : Nat) (rest : Text) :
    ((Spot.overBlanks before p rest).flatMap (hitsAt ignoreCase bs)).head? =
      hitAfterBlanks ignoreCase bs before p rest := by
  induction rest generalizing before p with
  | nil =>
    rw [Spot.overBlanks, List.flatMap_singleton, head?_hitsAt, hitAfterBlanks]
    exact hitHere_end hne before p
  | cons c cs ih =>
    rw [Spot.overBlanks, List.flatMap_append, List.flatMap_singleton, List.head?_append, head?_hitsAt,
      hitAfterBlanks]
    by_cases hblank : c = ' ' ∨ c = '\t'
    · rw [if_pos hblank, if_pos hblank, ih]
      cases hitAfterBlanks ignoreCase bs (some c) (p + c.utf8Size) cs <;> rfl
    · rw [if_neg hblank, if_neg hblank]
      rfl

include hbs

/-- **The ways in which the literals of a level match are their hits**, in the order of the literals. -/
theorem map_pickHit_literalGroups (x : Spot) :
    ((literalGroups bs).matchesAt ignoreCase x).map (pickHit bs) = (hitsAt ignoreCase bs x).map some := by
  have hgroups : (bs.zipIdx.map fun (b, n) => Pattern.sequence [.group n (.bounded b.literal)]) ≠ [] := by
    simpa using hbs
  have hone : ∀ a ∈ bs.zipIdx,
      ((Pattern.sequence [.group a.2 (.bounded a.1.literal)]).matchesAt ignoreCase x).map (pickHit bs) =
        (hitsAt ignoreCase [a.1] x).map some := by
    intro a ha
    rw [Pattern.matchesAt_sequence_single]
    exact map_pickHit_group hne (List.mem_zipIdx_iff_getElem?.1 ha) x
  calc ((literalGroups bs).matchesAt ignoreCase x).map (pickHit bs)
      = bs.zipIdx.flatMap fun a => (hitsAt ignoreCase [a.1] x).map some := by
        rw [literalGroups, Pattern.matchesAt_alternation hgroups, List.flatMap_map, List.map_flatMap]
        exact List.flatMap_congr hone
    _ = (bs.zipIdx.map Prod.fst).flatMap fun b => (hitsAt ignoreCase [b] x).map some := by rw [List.flatMap_map]
    _ = (hitsAt ignoreCase bs x).map some := by
        rw [List.zipIdx_map_fst, hitsAt_eq_flatMap bs, List.map_flatMap]

end Level

/-! ## The search of a level -/

theorem Spot.before_onward {c : Char} {p : Nat} {rest : Text} :
    ∀ y ∈ Spot.onward (some c) p rest, y.before.isNone = false := by
  induction rest generalizing c p with
  | nil => simp [onward]
  | cons d ds ih =>
    intro y hy
    rcases List.mem_cons.1 hy with rfl | hy
    · rfl
    · exact ih y hy

/-- Where a level starts at the cursor, nothing matches further on. -/
theorem Spot.flatMap_onward_none {β : Type} (f : Spot → List β) (p : Nat) (rest : Text) :
    ((onward none p rest).flatMap fun y => if y.before.isNone then f y else []) = f ⟨none, rest, p⟩ := by
  cases rest with
  | nil => simp [onward]
  | cons c cs =>
    rw [onward, List.flatMap_cons]
    have hlater : ((onward (some c) (p + c.utf8Size) cs).flatMap fun y => if y.before.isNone then f y else []) =
        [] := by
      rw [List.flatMap_eq_nil_iff]
      intro y hy
      rw [before_onward y hy]
      rfl
    rw [hlater, List.append_nil]
    rfl

namespace KeywordTree

variable {t : KeywordTree}

theorem matchesAt_anywhere (ht : t.anywhere = true) :
    t.levelPattern.matchesAt ignoreCase = (literalGroups t.children.toList).matchesAt ignoreCase := by
  funext x
  rw [levelPattern, if_pos ht]
  exact Pattern.matchesAt_sequence_single _ x

theorem matchesAt_cursor (ht : t.anywhere = false) (x : Spot) :
    t.levelPattern.matchesAt ignoreCase x = if x.before.isNone then
      (Spot.overBlanks x.before x.offset x.rest).flatMap
        ((literalGroups t.children.toList).matchesAt ignoreCase) else [] := by
  have hgroups : (Pattern.sequence [literalGroups t.children.toList]).matchesAt ignoreCase =
      (literalGroups t.children.toList).matchesAt ignoreCase := funext (Pattern.matchesAt_sequence_single _)
  rw [levelPattern, ht, ← hgroups]
  show Pattern.andThen (if x.before.isNone then [(x, [])] else []) (fun y =>
    Pattern.andThen ((Spot.overBlanks y.before y.offset y.rest).map (·, [])) _) = _
  cases x.before.isNone with
  | false => rfl
  | true =>
    rw [if_pos rfl, Pattern.andThen_single, Pattern.andThen_places, if_pos rfl]
    rfl

/-- **The search of a level's pattern takes the hit of the level.** -/
theorem search_levelPattern (hbs : t.children.toList ≠ [])
    (hne : ∀ b ∈ t.children.toList, b.literal ≠ []) (before : Option Char) (p : Nat) (rest : Text) :
    (t.levelPattern.search ignoreCase ⟨if t.anywhere then before else none, rest, p⟩).bind
        (pickHit t.children.toList) =
      if t.anywhere then hitAnywhere ignoreCase t.children.toList before p rest
      else hitAfterBlanks ignoreCase t.children.toList none p rest := by
  have hgroups (xs : List Spot) :
      (xs.flatMap ((literalGroups t.children.toList).matchesAt ignoreCase)).map (pickHit t.children.toList) =
        (xs.flatMap (hitsAt ignoreCase t.children.toList)).map some := by
    rw [List.map_flatMap, List.map_flatMap]
    exact List.flatMap_congr fun x _ => map_pickHit_literalGroups hbs hne x
  rw [Pattern.search_eq_head?]
  cases ht : t.anywhere with
  | true =>
    rw [← head?_hits_onward hne, matchesAt_anywhere ht]
    exact head?_bind_of_map_eq (hgroups _)
  | false =>
    -- only the cursor has nothing before it, so no other place matches
    rw [← head?_hits_overBlanks hne, funext (matchesAt_cursor ht)]
    apply head?_bind_of_map_eq
    show List.map _ ((Spot.onward none p rest).flatMap _) = _
    rw [Spot.flatMap_onward_none]
    exact hgroups _

end KeywordTree

end BlockScript
