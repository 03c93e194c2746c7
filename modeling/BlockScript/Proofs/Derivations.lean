/-
  The precedence relations of a grammar, read off its derivations.

  1. **What the relations should be** (`Relates`).  `=` is read off right-hand sides: two keywords stand
     there side by side, or with an instruction between them.  For `<` and `>` one of the two stands
     outside an instruction, and the other begins or ends some form derived from that instruction, in
     any number of steps.
  2. **One step is enough** (`Derives.leading`).  The keyword at the front of a derived form is already
     at the front of some right-hand side.  The invariant is that forms are `Spaced`: no two
     instructions are side by side, so what replaces an instruction is seen at the front only where it
     stands first.  The end is the front of the mirror image (`Derives.reverse`).
  3. **The table** (`table_follows_derivations`).  With the relations of each pair known, `verdict_cases`
     says what becomes of it, and what building a table comes to in terms of verdicts then reads in
     terms of derivations.

  All this is about operator grammars: no right-hand side is empty, and none has two instructions side
  by side.
-/
import BlockScript.Proofs.TableBuilding
import Mathlib.Data.List.Chain
import Mathlib.Data.List.Infix
import Mathlib.Logic.Relation

namespace BlockScript

namespace Grammar

/-! ## Derivations -/

/-- One instruction of a form is replaced by a right-hand side. -/
inductive Rewrites (es : List (List Symbol)) : List Symbol → List Symbol → Prop where
  | replace (front rhs back : List Symbol) (h : rhs ∈ es) :
      Rewrites es (front ++ .inst :: back) (front ++ rhs ++ back)

/-- The forms an instruction derives in one or more steps. -/
def Derives (es : List (List Symbol)) (form : List Symbol) : Prop :=
  Relation.TransGen (Rewrites es) [.inst] form

/-- The first keyword of the form is `k`, past at most one instruction. -/
def StartsWith (k : TokenKind) (form : List Symbol) : Prop :=
  [.terminal k] <+: form ∨ [.inst, .terminal k] <+: form

/-- The last keyword of the form is `k`, before at most one instruction. -/
def EndsWith (k : TokenKind) (form : List Symbol) : Prop :=
  [.terminal k] <:+ form ∨ [.terminal k, .inst] <:+ form

/-- No two instructions are side by side. -/
def Spaced (form : List Symbol) : Prop := ¬[Symbol.inst, .inst] <:+: form

/-- No right-hand side is empty, and none has two instructions side by side. -/
def IsOperator (es : List (List Symbol)) : Prop := ∀ e ∈ es, e ≠ [] ∧ Spaced e

/-- `a` and `b` stand side by side in the form, or with one instruction between them. -/
def Meet (a b : TokenKind) (form : List Symbol) : Prop :=
  [.terminal a, .terminal b] <:+: form ∨ [.terminal a, .inst, .terminal b] <:+: form

/-- How `a` stands to `b`. -/
inductive Relates (es : List (List Symbol)) (a b : TokenKind) : Relation → Prop where
  | equal {e : List Symbol} (he : e ∈ es) (h : Meet a b e) : Relates es a b .equal
  | yields {e form : List Symbol} (he : e ∈ es) (h : [.terminal a, .inst] <:+: e) (hd : Derives es form)
      (hb : StartsWith b form) : Relates es a b .yields
  | takes {e form : List Symbol} (he : e ∈ es) (h : [.inst, .terminal b] <:+: e) (hd : Derives es form)
      (ha : EndsWith a form) : Relates es a b .takes

variable {es : List (List Symbol)} {e form form' : List Symbol} {a b k : TokenKind}

/-! ### The mirror image -/

theorem endsWith_iff : EndsWith k form ↔ StartsWith k form.reverse := by
  rw [EndsWith, StartsWith, ← List.reverse_prefix, ← List.reverse_prefix]
  rfl

theorem Spaced.reverse (h : Spaced form) : Spaced form.reverse :=
  fun hpair => h (List.reverse_infix.1 hpair)

theorem IsOperator.reverse (h : IsOperator es) : IsOperator (es.map List.reverse) := by
  intro e he
  obtain ⟨e', he', rfl⟩ := List.mem_map.1 he
  obtain ⟨hne, hspaced⟩ := h e' he'
  exact ⟨fun hnil => hne (List.reverse_eq_nil_iff.1 hnil), hspaced.reverse⟩

theorem Rewrites.reverse (h : Rewrites es form form') :
    Rewrites (es.map List.reverse) form.reverse form'.reverse := by
  obtain ⟨front, rhs, back, h⟩ := h
  simpa using Rewrites.replace back.reverse rhs.reverse front.reverse (List.mem_map_of_mem h)

theorem Derives.reverse (h : Derives es form) : Derives (es.map List.reverse) form.reverse := by
  induction h with
  | single h => exact .single h.reverse
  | tail _ h ih => exact .tail ih h.reverse

/-! ### The front of a derived form -/

theorem leading_eq_some_iff : leading form = some k ↔ StartsWith k form := by
  constructor
  · intro h
    unfold leading at h
    split at h
    · obtain rfl := Option.some.inj h
      exact .inl ⟨_, rfl⟩
    · obtain rfl := Option.some.inj h
      exact .inr ⟨_, rfl⟩
    · cases h
  · rintro (⟨rest, rfl⟩ | ⟨rest, rfl⟩) <;> rfl

theorem spaced_iff : Spaced form ↔ form.IsChain fun x y => x = .inst → y ≠ .inst := by
  rw [List.isChain_iff_forall_rel_of_append_cons_cons]
  constructor
  · rintro h x y front back rfl rfl rfl
    exact h ⟨front, back, by simp⟩
  · rintro h ⟨front, back, heq⟩
    exact h (show form = front ++ .inst :: .inst :: back by simp [← heq]) rfl rfl

/-- **Step.**  Derived forms stay spaced. -/
theorem Rewrites.spaced (hes : IsOperator es) (h : Rewrites es form form') (hform : Spaced form) :
    Spaced form' := by
  obtain ⟨front, rhs, back, he⟩ := h
  have hrhs := (hes _ he).2
  rw [spaced_iff] at hform hrhs ⊢
  obtain ⟨hfront, hrest, hbefore⟩ := List.isChain_append.1 hform
  obtain ⟨hbehind, hback⟩ := List.isChain_cons.1 hrest
  -- neither neighbour of the instruction is one, so any right-hand side fits between them
  refine List.isChain_append.2 ⟨List.isChain_append.2 ⟨hfront, hrhs, ?_⟩, hback, ?_⟩
  · intro x hx y _ hinst
    exact absurd rfl (hbefore x hx .inst rfl hinst)
  · intro x _ y hy _
    exact hbehind y hy rfl

/-- What is put behind a form shows at its front only where the form is empty or an instruction. -/
theorem leading_append (hnil : form ≠ []) (hinst : form ≠ [.inst]) (back : List Symbol) :
    leading (form ++ back) = leading form := by
  rcases form with _ | ⟨x | _, _ | ⟨y | _, rest⟩⟩
  · exact absurd rfl hnil
  · rfl
  · rfl
  · rfl
  · exact absurd rfl hinst
  · rfl
  · rfl

/-- **Step.**  The front of a form is kept, or it is now the front of a right-hand side. -/
theorem Rewrites.leading (hes : IsOperator es) (h : Rewrites es form form') (hform : Spaced form) :
    leading form' = leading form ∨ ∃ e ∈ es, leading form' = leading e := by
  obtain ⟨front, rhs, back, he⟩ := h
  by_cases hnil : front = []
  · -- the instruction stands first: what replaces it is seen, unless that is an instruction again
    subst hnil
    by_cases hrhs : rhs = [.inst]
    · subst hrhs
      exact .inl rfl
    · exact .inr ⟨rhs, he, leading_append (hes rhs he).1 hrhs back⟩
  · have hinst : front ≠ [.inst] := by
      rintro rfl
      exact hform ⟨[], back, rfl⟩
    rw [List.append_assoc, leading_append hnil hinst, leading_append hnil hinst]
    exact .inl rfl

theorem spaced_inst : Spaced [.inst] := fun h => by
  simpa using h.length_le

theorem Derives.spaced (hes : IsOperator es) (h : Derives es form) : Spaced form := by
  induction h with
  | single h => exact h.spaced hes spaced_inst
  | tail _ h ih => exact h.spaced hes ih

/-- **Run.**  A keyword at the front of a derived form is at the front of a right-hand side. -/
theorem Derives.leading (hes : IsOperator es) (h : Derives es form) (hk : leading form = some k) :
    ∃ e ∈ es, leading e = some k := by
  induction h with
  | single h =>
    rcases h.leading hes spaced_inst with hkept | ⟨e, he, hnew⟩
    · rw [hkept] at hk
      cases hk
    · exact ⟨e, he, hnew.symm.trans hk⟩
  | tail hd h ih =>
    rcases h.leading hes (Derives.spaced hes hd) with hkept | ⟨e, he, hnew⟩
    · exact ih (hkept.symm.trans hk)
    · exact ⟨e, he, hnew.symm.trans hk⟩

theorem Derives.of_mem (he : e ∈ es) : Derives es e :=
  .single (by simpa using Rewrites.replace [] e [] he)

/-! ## The relations, as the table computes them -/

/-- The keywords an instruction can begin with are those its derived forms begin with. -/
theorem mem_firsts_iff (hes : IsOperator es) :
    k ∈ firsts es ↔ ∃ form, Derives es form ∧ StartsWith k form := by
  have hmem : k ∈ firsts es ↔ ∃ e ∈ es, leading e = some k := by
    simp [firsts, TokenKind.mem_all]
  rw [hmem]
  constructor
  · rintro ⟨e, he, hk⟩
    exact ⟨e, .of_mem he, leading_eq_some_iff.1 hk⟩
  · rintro ⟨form, hd, hk⟩
    exact hd.leading hes (leading_eq_some_iff.2 hk)

/-- The keywords an instruction can end with are those its derived forms end with. -/
theorem mem_lasts_iff (hes : IsOperator es) :
    k ∈ lasts es ↔ ∃ form, Derives es form ∧ EndsWith k form := by
  have hmirror : lasts es = firsts (es.map List.reverse) := by
    simp [lasts, firsts, Function.comp_def]
  have htwice : (es.map List.reverse).map List.reverse = es := by simp
  rw [hmirror, mem_firsts_iff hes.reverse]
  constructor
  · rintro ⟨form, hd, hk⟩
    have hd' := hd.reverse
    rw [htwice] at hd'
    exact ⟨form.reverse, hd', endsWith_iff.2 (by rwa [List.reverse_reverse])⟩
  · rintro ⟨form, hd, hk⟩
    exact ⟨form.reverse, hd.reverse, endsWith_iff.1 hk⟩

theorem someTail_iff {p : List Symbol → Bool} {word : List Symbol} (hne : word ≠ [])
    (hp : ∀ ss, p ss = true ↔ word <+: ss) (ss : List Symbol) : someTail p ss = true ↔ word <:+: ss := by
  induction ss with
  | nil => simp [someTail, hne]
  | cons s ss ih => rw [someTail, Bool.or_eq_true, hp, ih, List.infix_cons_iff]

theorem beforeInst_iff : beforeInst a e = true ↔ [.terminal a, .inst] <:+: e := by
  refine someTail_iff (by simp) (fun ss => ?_) e
  constructor
  · intro h
    split at h
    · obtain rfl := of_decide_eq_true h
      exact ⟨_, rfl⟩
    · cases h
  · rintro ⟨rest, rfl⟩
    exact decide_eq_true rfl

theorem afterInst_iff : afterInst b e = true ↔ [.inst, .terminal b] <:+: e := by
  refine someTail_iff (by simp) (fun ss => ?_) e
  constructor
  · intro h
    split at h
    · obtain rfl := of_decide_eq_true h
      exact ⟨_, rfl⟩
    · cases h
  · rintro ⟨rest, rfl⟩
    exact decide_eq_true rfl

theorem meet_cons {x : TokenKind} :
    Meet a b (.terminal x :: form) ↔ (a = x ∧ leading form = some b) ∨ Meet a b form := by
  simp only [Meet, List.infix_cons_iff, List.cons_prefix_cons, Symbol.terminal.injEq,
    leading_eq_some_iff, StartsWith]
  tauto

theorem mem_neighbours_iff : (a, b) ∈ neighbours form ↔ Meet a b form := by
  fun_induction neighbours form with
  | case1 => simp [Meet]
  | case2 ss ih => simp [ih, Meet, List.infix_cons_iff]
  | case3 x ss y hy ih =>
    rw [meet_cons, hy, List.mem_cons, ih]
    simp [eq_comm]
  | case4 x ss hnone ih =>
    rw [meet_cons, hnone, ih]
    simp

/-- The table works out the relations that derivations give. -/
theorem holds_iff (hes : IsOperator es) {r : Relation} : holds es a b r = true ↔ Relates es a b r := by
  cases r with
  | yields =>
    rw [holds, Bool.and_eq_true, List.any_eq_true, List.contains_iff_mem, mem_firsts_iff hes]
    constructor
    · rintro ⟨⟨e, he, h⟩, form, hd, hb⟩
      exact .yields he (beforeInst_iff.1 h) hd hb
    · intro h
      cases h with
      | yields he h hd hb => exact ⟨⟨_, he, beforeInst_iff.2 h⟩, _, hd, hb⟩
  | equal =>
    rw [holds, List.any_eq_true]
    constructor
    · rintro ⟨e, he, h⟩
      exact .equal he (mem_neighbours_iff.1 (List.contains_iff_mem.1 h))
    · intro h
      cases h with
      | equal he h => exact ⟨_, he, List.contains_iff_mem.2 (mem_neighbours_iff.2 h)⟩
  | takes =>
    rw [holds, Bool.and_eq_true, List.any_eq_true, List.contains_iff_mem, mem_lasts_iff hes]
    constructor
    · rintro ⟨⟨e, he, h⟩, form, hd, ha⟩
      exact .takes he (afterInst_iff.1 h) hd ha
    · intro h
      cases h with
      | takes he h hd ha => exact ⟨⟨_, he, afterInst_iff.2 h⟩, _, hd, ha⟩

theorem mem_relationsOf (hes : IsOperator es) {r : Relation} :
    r ∈ relationsOf es a b ↔ Relates es a b r := by
  have hall : r ∈ Relation.all := by cases r <;> decide
  rw [relationsOf, List.mem_filter, holds_iff hes]
  exact and_iff_right hall

theorem relationsOf_nodup (es : List (List Symbol)) (a b : TokenKind) : (relationsOf es a b).Nodup :=
  List.Pairwise.filter _ (show Relation.all.Nodup by decide)

end Grammar

/-! ## What becomes of a pair -/

/-- How a keyword that groups so stands to itself. -/
def Associativity.toRelation : Associativity → Relation
  | .left => .takes
  | .right => .yields
  | .assoc => .takes

namespace Grammar

/-- `a` and `b` have more than one relation. -/
def Ambiguous (es : List (List Symbol)) (a b : TokenKind) : Prop :=
  ∃ r s, r ≠ s ∧ Relates es a b r ∧ Relates es a b s

/-- `a` and `b` have more than one relation, and these are not `<` and `>` of a keyword to itself whose
    grouping is declared. -/
def Clashes (g : Grammar) (a b : TokenKind) : Prop :=
  Ambiguous g.expansions a b ∧
    ¬(a = b ∧ ¬Relates g.expansions a b .equal ∧ ∃ grouping, (a, grouping) ∈ g.associativity)

variable {g : Grammar} {es : List (List Symbol)} {a b : TokenKind} {x y : Relation} {rest : List Relation}

theorem find?_declared (ds : List (TokenKind × Associativity)) (a : TokenKind) :
    ds.find? (·.1 = a) = (ds.lookup a).map (a, ·) := by
  induction ds with
  | nil => rfl
  | cons d ds ih =>
    obtain ⟨k, grouping⟩ := d
    by_cases hk : a = k
    · subst hk
      simp
    · have hne : (a == k) = false := by simpa using hk
      rw [List.find?_cons_of_neg (by simpa using Ne.symm hk), ih, List.lookup_cons, hne]

theorem resolve_undeclared (hd : g.associativity.lookup a = none) :
    g.resolve a b (x :: y :: rest) = .error ⟨a, b, x :: y :: rest⟩ := by
  simp only [resolve, find?_declared, hd, Option.map_none]

theorem resolve_declared {grouping : Associativity} (hd : g.associativity.lookup a = some grouping) :
    g.resolve a b (x :: y :: rest) =
      if a = b ∧ .equal ∉ x :: y :: rest then .ok (some grouping.toRelation)
      else .error ⟨a, b, x :: y :: rest⟩ := by
  have hguard : (decide (a = b) && !(x :: y :: rest).contains .equal) = true ↔
      a = b ∧ .equal ∉ x :: y :: rest := by
    rw [Bool.and_eq_true, decide_eq_true_iff, Bool.not_eq_true', ← Bool.not_eq_true,
      List.contains_iff_mem]
  have hrelation : (if grouping = .right then .yields else .takes) = grouping.toRelation := by
    cases grouping <;> rfl
  simp only [resolve, find?_declared, hd, Option.map_some, hrelation, hguard]

/-- What becomes of a pair, told by its relations: it has none; it has one; it has several, and its
    grouping is declared; or it is in conflict. -/
theorem verdict_cases (hes : IsOperator g.expansions) (a b : TokenKind) :
    ((∀ r, ¬Relates g.expansions a b r) ∧ g.verdict (a, b) = .ok none) ∨
    (∃ r, (∀ s, Relates g.expansions a b s ↔ s = r) ∧ g.verdict (a, b) = .ok (some r)) ∨
    (∃ grouping, a = b ∧ Ambiguous g.expansions a b ∧ ¬g.Clashes a b ∧
      g.associativity.lookup a = some grouping ∧ g.verdict (a, b) = .ok (some grouping.toRelation)) ∨
    (g.Clashes a b ∧ g.verdict (a, b) = .error ⟨a, b, relationsOf g.expansions a b⟩) := by
  have hmem := fun r => mem_relationsOf (r := r) (a := a) (b := b) hes
  have hnodup := relationsOf_nodup g.expansions a b
  unfold verdict
  generalize relationsOf g.expansions a b = rs at hmem hnodup
  rcases rs with _ | ⟨x, _ | ⟨y, rest⟩⟩
  · exact .inl ⟨fun r hr => List.not_mem_nil ((hmem r).2 hr), rfl⟩
  · exact .inr (.inl ⟨x, fun s => (hmem s).symm.trans List.mem_singleton, rfl⟩)
  · have hambiguous : Ambiguous g.expansions a b := by
      refine ⟨x, y, ?_, (hmem x).1 (by simp), (hmem y).1 (by simp)⟩
      rintro rfl
      simp at hnodup
    cases hd : g.associativity.lookup a with
    | none =>
      refine .inr (.inr (.inr ⟨⟨hambiguous, ?_⟩, resolve_undeclared hd⟩))
      rintro ⟨-, -, grouping, hdeclared⟩
      simpa using List.lookup_eq_none_iff.1 hd _ hdeclared
    | some grouping =>
      by_cases hself : a = b ∧ .equal ∉ x :: y :: rest
      · refine .inr (.inr (.inl ⟨grouping, hself.1, hambiguous, fun hclash => ?_, rfl, ?_⟩))
        · obtain ⟨before, after, hsplit, -⟩ := List.lookup_eq_some_iff.1 hd
          have hdeclared : (a, grouping) ∈ g.associativity := by simp [hsplit]
          exact hclash.2 ⟨hself.1, fun h => hself.2 ((hmem _).2 h), grouping, hdeclared⟩
        · rw [resolve_declared hd, if_pos hself]
      · refine .inr (.inr (.inr ⟨⟨hambiguous, fun h => ?_⟩, ?_⟩))
        · exact hself ⟨h.1, fun hequal => h.2.1 ((hmem _).1 hequal)⟩
        · rw [resolve_declared hd, if_neg hself]

theorem Ambiguous.not_none (h : Ambiguous es a b) : ¬∀ r, ¬Relates es a b r := by
  obtain ⟨r, _, _, hr, _⟩ := h
  exact fun hnone => hnone r hr

theorem Ambiguous.not_one (h : Ambiguous es a b) (r : Relation) : ¬∀ s, Relates es a b s ↔ s = r := by
  obtain ⟨x, y, hne, hx, hy⟩ := h
  exact fun hone => hne (((hone x).1 hx).trans ((hone y).1 hy).symm)

/-- A pair whose relations clash is in conflict, and the conflict tells its relations. -/
theorem Clashes.verdict_eq (hes : IsOperator g.expansions) (h : g.Clashes a b) :
    g.verdict (a, b) = .error ⟨a, b, relationsOf g.expansions a b⟩ := by
  rcases verdict_cases hes a b with ⟨hnone, _⟩ | ⟨r, hone, _⟩ | ⟨_, _, _, hclash, _⟩ | ⟨_, hv⟩
  · exact absurd hnone h.1.not_none
  · exact absurd hone (h.1.not_one r)
  · exact absurd h hclash
  · exact hv

/-- A pair in conflict is one whose relations clash. -/
theorem clashes_of_verdict (hes : IsOperator g.expansions) {c : Conflict} (h : g.verdict (a, b) = .error c) :
    g.Clashes a b := by
  rcases verdict_cases hes a b with ⟨_, hv⟩ | ⟨_, _, hv⟩ | ⟨_, _, _, _, _, hv⟩ | ⟨hclash, _⟩
  · rw [hv] at h
    cases h
  · rw [hv] at h
    cases h
  · rw [hv] at h
    cases h
  · exact hclash

end Grammar

/-! ## The table -/

namespace PrecedenceTable

open Grammar (Relates Ambiguous IsOperator)

/-- **The table is the one the derivations give.**  For an operator grammar, building the table fails
    just if the relations of some pair clash; the conflict is then the least such pair, with all its
    relations.  Otherwise the table shows for each pair the one relation it has, nothing where it has
    none, and for a keyword that both yields to itself and takes precedence over itself the side that the
    first declaration for it gives. -/
theorem table_follows_derivations (g : Grammar) (hes : IsOperator g.expansions) :
    ((∃ c, build g = .error c) ↔ ∃ a b, g.Clashes a b) ∧
    (∀ c, build g = .error c → g.Clashes c.left c.right ∧
      (∀ a b, g.Clashes a b → (a, b) = (c.left, c.right) ∨ Precedes (c.left, c.right) (a, b)) ∧
      ∀ r, r ∈ c.relations ↔ Relates g.expansions c.left c.right r) ∧
    ∀ t, build g = .ok t → ∀ a b,
      ((∀ r, ¬Relates g.expansions a b r) → t.relation a b = none) ∧
      (∀ r, (∀ s, Relates g.expansions a b s ↔ s = r) → t.relation a b = some r) ∧
      (Ambiguous g.expansions a b → a = b ∧ ∃ grouping, g.associativity.lookup a = some grouping ∧
        t.relation a b = some grouping.toRelation) := by
  refine ⟨⟨?_, ?_⟩, ?_, ?_⟩
  · rintro ⟨c, hc⟩
    obtain ⟨⟨a, b⟩, hp, -⟩ := of_build_error hc
    exact ⟨a, b, Grammar.clashes_of_verdict hes hp⟩
  · rintro ⟨a, b, hclash⟩
    cases hbuild : build g with
    | error c => exact ⟨c, rfl⟩
    | ok t =>
      have hok := (of_build hbuild).1 (a, b)
      rw [hclash.verdict_eq hes] at hok
      cases hok
  · intro c hc
    obtain ⟨⟨a, b⟩, hp, hleast⟩ := of_build_error hc
    have hclash := Grammar.clashes_of_verdict hes hp
    obtain rfl := Except.error.inj (hp.symm.trans (hclash.verdict_eq hes))
    refine ⟨hclash, fun a' b' hclash' => ?_, fun r => Grammar.mem_relationsOf hes⟩
    exact hleast _ _ (hclash'.verdict_eq hes)
  · intro t ht a b
    obtain ⟨hall, rfl⟩ := of_build ht
    rw [relation_ofRelations]
    rcases Grammar.verdict_cases hes a b with
      ⟨hnone, hv⟩ | ⟨r, hone, hv⟩ | ⟨grouping, hself, htwo, -, hd, hv⟩ | ⟨-, hv⟩
    · rw [Grammar.outcome_eq hv]
      exact ⟨fun _ => rfl, fun r hone => absurd ((hone r).2 rfl) (hnone r),
        fun htwo => absurd hnone htwo.not_none⟩
    · rw [Grammar.outcome_eq hv]
      refine ⟨fun hnone => absurd ((hone r).2 rfl) (hnone r), fun s hone' => ?_, fun htwo => ?_⟩
      · rw [(hone' r).1 ((hone r).2 rfl)]
      · exact absurd hone (htwo.not_one r)
    · rw [Grammar.outcome_eq hv]
      exact ⟨fun hnone => absurd hnone htwo.not_none, fun r hone => absurd hone (htwo.not_one r),
        fun _ => ⟨hself, grouping, hd, rfl⟩⟩
    · have hok := hall (a, b)
      rw [hv] at hok
      cases hok

/-- Instructions in sequence, with the given declarations. -/
def sequences (ds : List (TokenKind × Associativity)) : Grammar :=
  ⟨[.inst (.terminal .separator (.inst .done))], ds⟩

theorem sequences_isOperator (ds : List (TokenKind × Associativity)) :
    IsOperator (sequences ds).expansions := by
  intro e he
  rw [List.mem_singleton.1 he]
  exact ⟨List.cons_ne_nil _ _, fun hpair => by revert hpair; decide⟩

/-- A separator yields to itself and takes precedence over itself: a conflict while nothing is declared,
    and settled by the first declaration otherwise. -/
theorem table_follows_derivations_sequences :
    let plain := sequences []
    let grouped := sequences [(.separator, .right), (.separator, .left)]
    IsOperator plain.expansions ∧ plain.Clashes .separator .separator ∧
    IsOperator grouped.expansions ∧
      ∃ t, build grouped = .ok t ∧ t.relation .separator .separator = some .yields := by
  intro plain grouped
  have hconflict : build plain = .error ⟨.separator, .separator, [.yields, .takes]⟩ := rfl
  have hclash := ((table_follows_derivations plain (sequences_isOperator _)).2.1 _ hconflict).1
  refine ⟨sequences_isOperator _, hclash, sequences_isOperator _, ?_⟩
  have hbuilt : (build grouped).toOption.isSome = true := by decide +kernel
  cases hb : build grouped with
  | error c =>
    rw [hb] at hbuilt
    cases hbuilt
  | ok t =>
    obtain ⟨-, grouping, hd, hr⟩ :=
      ((table_follows_derivations grouped (sequences_isOperator _)).2.2 t hb .separator .separator).2.2 hclash.1
    cases hd
    exact ⟨t, rfl, hr⟩

end PrecedenceTable

end BlockScript
