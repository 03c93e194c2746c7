/-
  What building a precedence table comes to.

  The pairs of kinds are settled one after the other, in order (`pairs_ordered`); `verdict` is what
  becomes of one of them.  `build_cases` says all that can happen: every pair has an answer and the table
  keeps those that are relations, or the first pair without an answer is the conflict.  Of a table that
  was built, `relation_ofRelations` and `contains_partners` then read the answers back, so that what is
  said about pairs is said about the table.
-/
import BlockScript.Grammar.Precedence

namespace BlockScript

namespace TokenKind

theorem mem_all (k : TokenKind) : k ∈ all := by
  cases k <;> decide

/-- The place of a kind among all kinds. -/
def rank (k : TokenKind) : Nat := all.idxOf k

theorem all_ordered : all.Pairwise (·.rank < ·.rank) := by
  decide

end TokenKind

/-! ## Pairs in order -/

namespace PrecedenceTable

/-- Pairs of kinds go by the left one, and then by the right one. -/
def Precedes (p q : TokenKind × TokenKind) : Prop :=
  p.1.rank < q.1.rank ∨ p.1 = q.1 ∧ p.2.rank < q.2.rank

theorem mem_pairs (p : TokenKind × TokenKind) : p ∈ pairs :=
  List.mem_flatMap.2 ⟨p.1, TokenKind.mem_all _, List.mem_map.2 ⟨p.2, TokenKind.mem_all _, rfl⟩⟩

theorem pairs_ordered : pairs.Pairwise Precedes := by
  refine List.pairwise_flatMap.2 ⟨fun a _ => ?_, ?_⟩
  · exact List.pairwise_map.2 (TokenKind.all_ordered.imp fun h => .inr ⟨rfl, h⟩)
  · refine TokenKind.all_ordered.imp fun h p hp q hq => ?_
    obtain ⟨_, _, rfl⟩ := List.mem_map.1 hp
    obtain ⟨_, _, rfl⟩ := List.mem_map.1 hq
    exact .inl h

end PrecedenceTable

/-! ## One pair after the other -/

namespace Grammar

variable {g : Grammar} {p : TokenKind × TokenKind}

/-- What becomes of a pair: its relation, none, or a conflict. -/
def verdict (g : Grammar) (p : TokenKind × TokenKind) : Except Conflict (Option Relation) :=
  g.resolve p.1 p.2 (relationsOf g.expansions p.1 p.2)

/-- The relation of a pair; none where it has none and where it is in conflict. -/
def outcome (g : Grammar) (p : TokenKind × TokenKind) : Option Relation := (g.verdict p).toOption.join

theorem outcome_eq {o : Option Relation} (h : g.verdict p = .ok o) : g.outcome p = o := by
  rw [outcome, h]
  rfl

/-- The pairs that have a relation, with it. -/
def outcomes (g : Grammar) (ps : List (TokenKind × TokenKind)) : List ((TokenKind × TokenKind) × Relation) :=
  ps.filterMap fun p => (g.outcome p).map (p, ·)

theorem outcomes_cons (g : Grammar) (p : TokenKind × TokenKind) (ps : List (TokenKind × TokenKind)) :
    g.outcomes (p :: ps) = ((g.outcome p).map (p, ·)).toList ++ g.outcomes ps := by
  rw [outcomes, List.filterMap_cons]
  cases g.outcome p <;> rfl

/-- The relations of the given pairs, or the first conflict among them. -/
def settle (g : Grammar) (ps : List (TokenKind × TokenKind)) :
    Except Conflict (List ((TokenKind × TokenKind) × Relation)) := do
  let found ← ps.mapM fun p => do
    return (← g.verdict p).map (p, ·)
  return found.filterMap id

theorem settle_error {c : Conflict} (h : g.verdict p = .error c) (ps : List (TokenKind × TokenKind)) :
    g.settle (p :: ps) = .error c := by
  rw [settle, List.mapM_cons, h]
  rfl

theorem settle_ok {o : Option Relation} (h : g.verdict p = .ok o) (ps : List (TokenKind × TokenKind)) :
    g.settle (p :: ps) = (g.settle ps).map fun rs => (o.map (p, ·)).toList ++ rs := by
  rw [settle, List.mapM_cons, h, settle]
  cases ps.mapM fun p => do return (← g.verdict p).map (p, ·) with
  | error c => rfl
  | ok found => cases o <;> rfl

/-- What a run over some pairs can come to: each of them has an answer, or some first one has none. -/
theorem settle_cases (g : Grammar) (ps : List (TokenKind × TokenKind)) :
    ((∀ p ∈ ps, g.verdict p = .ok (g.outcome p)) ∧ g.settle ps = .ok (g.outcomes ps)) ∨
    ∃ pre p post c, ps = pre ++ p :: post ∧ (∀ q ∈ pre, g.verdict q = .ok (g.outcome q)) ∧
      g.verdict p = .error c ∧ g.settle ps = .error c := by
  induction ps with
  | nil => exact .inl ⟨List.forall_mem_nil _, rfl⟩
  | cons p ps ih =>
    cases hp : g.verdict p with
    | error c => exact .inr ⟨[], p, ps, c, rfl, List.forall_mem_nil _, hp, settle_error hp ps⟩
    | ok o =>
      have hout : g.verdict p = .ok (g.outcome p) := by rw [hp, outcome_eq hp]
      rcases ih with ⟨hall, hok⟩ | ⟨pre, q, post, c, rfl, hpre, hq, herror⟩
      · refine .inl ⟨List.forall_mem_cons.2 ⟨hout, hall⟩, ?_⟩
        rw [settle_ok hout, hok, outcomes_cons]
        rfl
      · refine .inr ⟨p :: pre, q, post, c, rfl, List.forall_mem_cons.2 ⟨hout, hpre⟩, hq, ?_⟩
        rw [settle_ok hout, herror]
        rfl

end Grammar

/-! ## The whole table -/

namespace PrecedenceTable

open Grammar (Conflict)

variable {g : Grammar} {t : PrecedenceTable}

/-- What building a table can come to. -/
theorem build_cases (g : Grammar) :
    ((∀ p, g.verdict p = .ok (g.outcome p)) ∧ build g = .ok (ofRelations (g.outcomes pairs))) ∨
    ∃ pre p post c, pairs = pre ++ p :: post ∧ (∀ q ∈ pre, g.verdict q = .ok (g.outcome q)) ∧
      g.verdict p = .error c ∧ build g = .error c := by
  have hbuild : build g = (g.settle pairs).map ofRelations := by
    rw [build]
    change (g.settle pairs >>= fun rs => pure (ofRelations rs)) = _
    cases g.settle pairs <;> rfl
  rcases g.settle_cases pairs with ⟨hall, hok⟩ | ⟨pre, p, post, c, hsplit, hpre, hp, herror⟩
  · refine .inl ⟨fun p => hall p (mem_pairs p), ?_⟩
    rw [hbuild, hok]
    rfl
  · refine .inr ⟨pre, p, post, c, hsplit, hpre, hp, ?_⟩
    rw [hbuild, herror]
    rfl

/-- A table that was built holds the relation of every pair, and none of them is in conflict. -/
theorem of_build (h : build g = .ok t) :
    (∀ p, g.verdict p = .ok (g.outcome p)) ∧ t = ofRelations (g.outcomes pairs) := by
  rcases build_cases g with ⟨hall, hok⟩ | ⟨_, _, _, _, _, _, _, herror⟩
  · exact ⟨hall, Except.ok.inj (h.symm.trans hok)⟩
  · rw [herror] at h
    cases h

/-- The conflict that is told is the one of the first pair in conflict. -/
theorem of_build_error {c : Conflict} (h : build g = .error c) :
    ∃ p, g.verdict p = .error c ∧ ∀ q c', g.verdict q = .error c' → q = p ∨ Precedes p q := by
  rcases build_cases g with ⟨_, hok⟩ | ⟨pre, p, post, c', hsplit, hpre, hp, herror⟩
  · rw [hok] at h
    cases h
  · obtain rfl : c' = c := Except.error.inj (herror.symm.trans h)
    refine ⟨p, hp, fun q c' hq => ?_⟩
    have hordered := pairs_ordered
    rw [hsplit] at hordered
    have hpost := (List.pairwise_cons.1 (List.pairwise_append.1 hordered).2.1).1
    have hmem := mem_pairs q
    rw [hsplit] at hmem
    rcases List.mem_append.1 hmem with hmem | hmem
    · rw [hpre q hmem] at hq
      cases hq
    · rcases List.mem_cons.1 hmem with rfl | hmem
      · exact .inl rfl
      · exact .inr (hpost q hmem)

/-! ## Reading a table -/

theorem mem_outcomes {p : TokenKind × TokenKind} {r : Relation} :
    (p, r) ∈ g.outcomes pairs ↔ g.outcome p = some r := by
  constructor
  · intro h
    obtain ⟨q, -, hq⟩ := List.mem_filterMap.1 h
    obtain ⟨r', hr', heq⟩ := Option.map_eq_some_iff.1 hq
    obtain ⟨rfl, rfl⟩ := Prod.mk.inj heq
    exact hr'
  · intro h
    exact List.mem_filterMap.2 ⟨p, mem_pairs p, by rw [h, Option.map_some]⟩

/-- The table shows the relation each pair came out with. -/
theorem relation_ofRelations (g : Grammar) (a b : TokenKind) :
    (ofRelations (g.outcomes pairs)).relation a b = g.outcome (a, b) := by
  change (g.outcomes pairs).lookup (a, b) = _
  cases h : (g.outcomes pairs).lookup (a, b) with
  | none =>
    have hmiss := List.lookup_eq_none_iff.1 h
    cases ho : g.outcome (a, b) with
    | none => rfl
    | some r => simpa using hmiss _ (mem_outcomes.2 ho)
  | some r =>
    obtain ⟨front, back, hsplit, -⟩ := List.lookup_eq_some_iff.1 h
    have hmem : ((a, b), r) ∈ g.outcomes pairs := by simp [hsplit]
    exact (mem_outcomes.1 hmem).symm

/-- The pairs that a table takes for parts of one construct are those it relates by `=`. -/
theorem contains_partners (g : Grammar) (a b : TokenKind) :
    (((g.outcomes pairs).filter (·.2 = .equal)).map (·.1)).contains (a, b) = true ↔
      (ofRelations (g.outcomes pairs)).relation a b = some .equal := by
  rw [List.contains_iff_mem, relation_ofRelations, ← mem_outcomes, List.mem_map]
  constructor
  · rintro ⟨⟨p, r⟩, hmem, rfl⟩
    obtain ⟨hmem, hr⟩ := List.mem_filter.1 hmem
    obtain rfl : r = .equal := of_decide_eq_true hr
    exact hmem
  · intro h
    exact ⟨_, List.mem_filter.2 ⟨h, decide_eq_true rfl⟩, rfl⟩

end PrecedenceTable

end BlockScript
