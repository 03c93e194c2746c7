/-
  Chains of `=`, and what openers reach.

  1. **Rounds** (`mem_chain_iff`).  `chain eq k n` holds what chains of up to `n + 1` steps lead to from
     `k`.  A round that finds nothing new is followed by none that does (`Stable.succ`), and each other
     round finds at least one kind more; so after as many rounds as there are kinds nothing is new, and
     the chains of any length are found, in cycles too.
  2. **Roles** (`roleOf_eq_opener_iff`, `roleOf_eq_closer_iff`) say on which sides a kind has partners.
  3. **The table** (`reach_follows_equal`).  Both are read off the relations that the table itself shows
     (`partners_eq_related`).
-/
import BlockScript.Proofs.TableBuilding
import Mathlib.Data.List.Perm.Subperm
import Mathlib.Logic.Relation

namespace BlockScript

namespace PrecedenceTable

/-! ## Rounds -/

variable {eq : TokenKind → TokenKind → Bool} {k b c : TokenKind} {n : Nat}

theorem mem_chain_zero : c ∈ chain eq k 0 ↔ eq k c = true := by
  simp [chain, TokenKind.mem_all]

theorem mem_chain_succ :
    c ∈ chain eq k (n + 1) ↔ c ∈ chain eq k n ∨ ∃ b ∈ chain eq k n, eq b c = true := by
  simp [chain, TokenKind.mem_all]

theorem chain_ordered (eq : TokenKind → TokenKind → Bool) (k : TokenKind) (n : Nat) :
    (chain eq k n).Pairwise (·.rank < ·.rank) := by
  cases n <;> (rw [chain]; exact TokenKind.all_ordered.filter _)

theorem length_chain_le (eq : TokenKind → TokenKind → Bool) (k : TokenKind) (n : Nat) :
    (chain eq k n).length ≤ TokenKind.all.length := by
  cases n <;> (rw [chain]; exact List.length_filter_le ..)

theorem chain_subset (n : Nat) : chain eq k n ⊆ chain eq k (n + 1) :=
  fun _ hc => mem_chain_succ.2 (.inl hc)

/-- The round after `n` finds nothing new. -/
def Stable (eq : TokenKind → TokenKind → Bool) (k : TokenKind) (n : Nat) : Prop :=
  chain eq k (n + 1) ⊆ chain eq k n

theorem Stable.succ (h : Stable eq k n) : Stable eq k (n + 1) := by
  intro c hc
  rcases mem_chain_succ.1 hc with hc | ⟨b, hb, hbc⟩
  · exact hc
  · exact mem_chain_succ.2 (.inr ⟨b, h hb, hbc⟩)

/-- **Step.**  A round finds nothing new, or it finds more. -/
theorem stable_or_grows (eq : TokenKind → TokenKind → Bool) (k : TokenKind) (n : Nat) :
    Stable eq k n ∨ (chain eq k n).length < (chain eq k (n + 1)).length := by
  by_cases hlen : (chain eq k (n + 1)).length ≤ (chain eq k n).length
  · have hnodup : (chain eq k n).Nodup := (chain_ordered eq k n).imp fun h heq => by
      rw [heq] at h
      exact Nat.lt_irrefl _ h
    have hperm := (List.subperm_of_subset hnodup (chain_subset n)).perm_of_length_le hlen
    exact .inl hperm.symm.subset
  · exact .inr (Nat.lt_of_not_le hlen)

/-- **Run.**  While rounds find more, there are more kinds than rounds. -/
theorem stable_or_lt_length (eq : TokenKind → TokenKind → Bool) (k : TokenKind) (n : Nat) :
    Stable eq k n ∨ n < (chain eq k (n + 1)).length := by
  induction n with
  | zero =>
    rcases stable_or_grows eq k 0 with h | h
    · exact .inl h
    · exact .inr (Nat.lt_of_le_of_lt (Nat.zero_le _) h)
  | succ n ih =>
    rcases ih with h | hn
    · exact .inl h.succ
    · rcases stable_or_grows eq k (n + 1) with h | h
      · exact .inl h
      · exact .inr (Nat.lt_of_le_of_lt hn h)

theorem stable_all (eq : TokenKind → TokenKind → Bool) (k : TokenKind) : Stable eq k TokenKind.all.length := by
  rcases stable_or_lt_length eq k TokenKind.all.length with h | h
  · exact h
  · exact absurd h (Nat.not_lt.2 (length_chain_le ..))

theorem transGen_of_mem_chain (h : c ∈ chain eq k n) : Relation.TransGen (eq · · = true) k c := by
  induction n generalizing c with
  | zero => exact .single (mem_chain_zero.1 h)
  | succ n ih =>
    rcases mem_chain_succ.1 h with h | ⟨b, hb, hbc⟩
    · exact ih h
    · exact .tail (ih hb) hbc

theorem mem_chain_of_eq (h : eq k c = true) (n : Nat) : c ∈ chain eq k n := by
  induction n with
  | zero => exact mem_chain_zero.2 h
  | succ n ih => exact chain_subset n ih

/-- As many rounds as there are kinds find the ends of all chains. -/
theorem mem_chain_iff :
    c ∈ chain eq k TokenKind.all.length ↔ Relation.TransGen (eq · · = true) k c := by
  refine ⟨transGen_of_mem_chain, fun h => ?_⟩
  induction h with
  | single h => exact mem_chain_of_eq h _
  | tail _ h ih => exact stable_all eq k (mem_chain_succ.2 (.inr ⟨_, ih, h⟩))

/-! ## Roles -/

theorem any_kinds {p : TokenKind → Bool} : TokenKind.all.any p = true ↔ ∃ k, p k = true := by
  simp [TokenKind.mem_all]

theorem any_kinds_eq_false {p : TokenKind → Bool} : TokenKind.all.any p = false ↔ ∀ k, p k = false := by
  simp [TokenKind.mem_all]

theorem roleOf_eq_opener_iff :
    roleOf eq k = .opener ↔ (∀ a, eq a k = false) ∧ ∃ b, eq k b = true := by
  rw [← any_kinds_eq_false, ← any_kinds, roleOf]
  cases TokenKind.all.any (eq · k) <;> cases TokenKind.all.any (eq k ·) <;> simp

theorem roleOf_eq_closer_iff :
    roleOf eq k = .closer ↔ (∃ a, eq a k = true) ∧ ∀ b, eq k b = false := by
  rw [← any_kinds, ← any_kinds_eq_false, roleOf]
  cases TokenKind.all.any (eq · k) <;> cases TokenKind.all.any (eq k ·) <;> simp

/-! ## The table -/

theorem lookup_map_self {β : Type} (ks : List TokenKind) (f : TokenKind → β) (k : TokenKind) :
    (ks.map fun x => (x, f x)).lookup k = if k ∈ ks then some (f k) else none := by
  induction ks with
  | nil => rfl
  | cons x ks ih =>
    by_cases hx : k = x
    · subst hx
      simp
    · have hne : (k == x) = false := by simpa using hx
      rw [List.map_cons, List.lookup_cons, hne, ih]
      simp [hx]

section Built

variable {g : Grammar} {t : PrecedenceTable} {o : TokenKind}

/-- Whether the table relates `a` and `b` by `=`. -/
def related (t : PrecedenceTable) (a b : TokenKind) : Bool := t.relation a b = some .equal

theorem partners_eq_related (g : Grammar) :
    (fun a b => (((g.outcomes pairs).filter (·.2 = .equal)).map (·.1)).contains (a, b)) =
      (ofRelations (g.outcomes pairs)).related := by
  funext a b
  rw [Bool.eq_iff_iff, contains_partners, related, decide_eq_true_iff]

theorem roles_of_build (h : build g = .ok t) : t.roles = TokenKind.all.map fun k => (k, roleOf t.related k) := by
  obtain ⟨-, rfl⟩ := of_build h
  rw [← partners_eq_related]
  rfl

theorem reach_of_build (h : build g = .ok t) :
    t.reach = (TokenKind.all.filter (roleOf t.related · = .opener)).map fun k =>
      (k, chain t.related k TokenKind.all.length) := by
  have hroles := roles_of_build h
  obtain ⟨-, rfl⟩ := of_build h
  have hreach : (ofRelations (g.outcomes pairs)).reach =
      ((ofRelations (g.outcomes pairs)).roles.filter (·.2 = .opener)).map fun p =>
        (p.1, chain (ofRelations (g.outcomes pairs)).related p.1 TokenKind.all.length) := by
    rw [← partners_eq_related]
    rfl
  rw [hreach, hroles, List.filter_map, List.map_map]
  rfl

theorem role_of_build (h : build g = .ok t) (k : TokenKind) : t.role k = roleOf t.related k := by
  rw [role, roles_of_build h, lookup_map_self, if_pos (TokenKind.mem_all k), Option.getD_some]

theorem reachOf_of_build (h : build g = .ok t) (o : TokenKind) :
    t.reachOf o = if roleOf t.related o = .opener then chain t.related o TokenKind.all.length else [] := by
  rw [reachOf, reach_of_build h, lookup_map_self]
  by_cases hrole : roleOf t.related o = .opener
  · have hmem : o ∈ TokenKind.all.filter (roleOf t.related · = .opener) :=
      List.mem_filter.2 ⟨TokenKind.mem_all o, decide_eq_true hrole⟩
    rw [if_pos hmem, if_pos hrole, Option.getD_some]
  · have hmem : o ∉ TokenKind.all.filter (roleOf t.related · = .opener) :=
      fun hmem => hrole (of_decide_eq_true (List.mem_filter.1 hmem).2)
    rw [if_neg hmem, if_neg hrole, Option.getD_none]

/-- What is reached from a kind: the ends of the chains from it, if nothing leads to it. -/
theorem mem_reachOf_iff (h : build g = .ok t) :
    c ∈ t.reachOf o ↔ (∀ a, t.related a o = false) ∧ Relation.TransGen (t.related · · = true) o c := by
  rw [reachOf_of_build h]
  constructor
  · intro hc
    split at hc
    · next hrole => exact ⟨(roleOf_eq_opener_iff.1 hrole).1, mem_chain_iff.1 hc⟩
    · cases hc
  · rintro ⟨hleft, hchain⟩
    obtain ⟨b, hb, -⟩ := Relation.TransGen.head'_iff.1 hchain
    rw [if_pos (roleOf_eq_opener_iff.2 ⟨hleft, b, hb⟩)]
    exact mem_chain_iff.2 hchain

/-- What is reached has a partner on its left. -/
theorem related_of_mem_reachOf (h : build g = .ok t) (hc : c ∈ t.reachOf o) : ∃ b, t.related b c = true := by
  obtain ⟨b, -, hb⟩ := Relation.TransGen.tail'_iff.1 ((mem_reachOf_iff h).1 hc).2
  exact ⟨b, hb⟩

theorem mem_closersOf_iff (h : build g = .ok t) :
    c ∈ t.closersOf o ↔ c ∈ t.reachOf o ∧ ∀ b, t.related c b = false := by
  rw [closersOf, List.mem_filter, decide_eq_true_iff, role_of_build h, roleOf_eq_closer_iff]
  constructor
  · rintro ⟨hc, -, hright⟩
    exact ⟨hc, hright⟩
  · rintro ⟨hc, hright⟩
    exact ⟨hc, related_of_mem_reachOf h hc, hright⟩

theorem closersOf_ordered (h : build g = .ok t) (o : TokenKind) :
    (t.closersOf o).Pairwise (·.rank < ·.rank) := by
  rw [closersOf, reachOf_of_build h]
  apply List.Pairwise.filter
  split
  · exact chain_ordered ..
  · exact List.Pairwise.nil

/-- **What belongs to which construct follows from `=`.**  In a table that was built, a kind closes or
    continues what `o` opens just if nothing is related to `o` by `=` from the left and some chain of `=`
    leads from `o` to it.  The closers of `o` are listed once each and in order, and are the kinds so
    reached that have no `=` to their right; and no opener is reached. -/
theorem reach_follows_equal (g : Grammar) (t : PrecedenceTable) (h : build g = .ok t) :
    (∀ o c, t.closes c o = true ↔ (∀ a, t.relation a o ≠ some .equal) ∧
      Relation.TransGen (fun a b => t.relation a b = some .equal) o c) ∧
    (∀ o, (t.closersOf o).Pairwise (·.rank < ·.rank) ∧
      ∀ c, c ∈ t.closersOf o ↔ t.closes c o = true ∧ ∀ b, t.relation c b ≠ some .equal) ∧
    ∀ o c, t.role c = .opener → t.closes c o = false := by
  have hcloses : ∀ o c, t.closes c o = true ↔ c ∈ t.reachOf o := fun o c => List.contains_iff_mem
  have hrelated : ∀ a b, t.related a b = true ↔ t.relation a b = some .equal :=
    fun a b => decide_eq_true_iff
  have hunrelated : ∀ a b, t.related a b = false ↔ t.relation a b ≠ some .equal :=
    fun a b => decide_eq_false_iff_not
  refine ⟨fun o c => ?_, fun o => ⟨closersOf_ordered h o, fun c => ?_⟩, fun o c hrole => ?_⟩
  · simp only [hcloses, mem_reachOf_iff h, hunrelated, hrelated]
  · simp only [hcloses, mem_closersOf_iff h, hunrelated]
  · rw [← Bool.not_eq_true, hcloses]
    intro hc
    obtain ⟨b, hb⟩ := related_of_mem_reachOf h hc
    rw [role_of_build h] at hrole
    rw [(roleOf_eq_opener_iff.1 hrole).1 b] at hb
    cases hb

/-- Conditions in which an `else` may follow an `else`, so that `=` leads from it back to itself. -/
def elseChain : Grammar :=
  ⟨[.terminal .ifBlock (.inst (.terminal .elseBlock (.inst (.terminal .elseBlock (.inst
    (.terminal .endBare .done))))))], []⟩

theorem reach_follows_equal_elseChain :
    ∃ t, build elseChain = .ok t ∧ t.relation .elseBlock .elseBlock = some .equal ∧
      Relation.TransGen (fun a b => t.relation a b = some .equal) .ifBlock .endBare ∧
      .endBare ∈ t.closersOf .ifBlock ∧ t.closes .ifBlock .ifBlock = false := by
  have hvalues : (build elseChain).toOption.map (fun t => (t.relation .elseBlock .elseBlock,
      t.closes .endBare .ifBlock, t.closersOf .ifBlock, t.role .ifBlock)) =
        some (some .equal, true, [.endBare], .opener) := by
    decide +kernel
  cases hb : build elseChain with
  | error c =>
    rw [hb] at hvalues
    cases hvalues
  | ok t =>
    obtain ⟨hreach, -, hopener⟩ := reach_follows_equal elseChain t hb
    rw [hb] at hvalues
    obtain ⟨hself, hvalues⟩ := Prod.mk.inj (Option.some.inj hvalues)
    obtain ⟨hcloses, hvalues⟩ := Prod.mk.inj hvalues
    obtain ⟨hclosers, hrole⟩ := Prod.mk.inj hvalues
    refine ⟨t, rfl, hself, ((hreach _ _).1 hcloses).2, ?_, hopener _ _ hrole⟩
    rw [hclosers]
    exact List.mem_singleton.2 rfl

end Built

end PrecedenceTable

end BlockScript
