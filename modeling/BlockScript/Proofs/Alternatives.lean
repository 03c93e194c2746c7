/-
  The alternatives of a right-hand side.

  1. `Reads` says what a right-hand side may be read as: keywords and instructions stand for themselves,
     a group is left out, or it is taken and read as well.  `mem_expand_iff`: `expand` lists just that.
  2. `extend` builds alternatives from the left: all those built so far are continued by the next item,
     and a group adds to them one copy for each alternative of its own.  `extend_eq` says how the
     choices before and behind a group combine; from no item at all, `extend` gives `expand`.
  3. `length_expand` counts the alternatives group by group, and `head?_expand` tells the first one.
-/
import BlockScript.Grammar.Production
import Mathlib.Algebra.BigOperators.Group.List.Basic

namespace BlockScript

namespace Rhs

/-! ## What a right-hand side may be read as -/

/-- The right-hand side read with each group left out or taken, and inner groups decided where the outer
    one is taken. -/
inductive Reads : Rhs → List Symbol → Prop where
  | done : Reads .done []
  | terminal {k : TokenKind} {rest : Rhs} {ss : List Symbol} (h : Reads rest ss) :
      Reads (.terminal k rest) (.terminal k :: ss)
  | inst {rest : Rhs} {ss : List Symbol} (h : Reads rest ss) : Reads (.inst rest) (.inst :: ss)
  | dropped {group rest : Rhs} {ss : List Symbol} (h : Reads rest ss) : Reads (.optional group rest) ss
  | taken {group rest : Rhs} {gs ss : List Symbol} (hg : Reads group gs) (h : Reads rest ss) :
      Reads (.optional group rest) (gs ++ ss)

/-- The right-hand side with every group left out. -/
def bare : Rhs → List Symbol
  | .done => []
  | .terminal k rest => .terminal k :: rest.bare
  | .inst rest => .inst :: rest.bare
  | .optional _ rest => rest.bare

/-- The groups of a right-hand side, those inside another one apart. -/
def groups : Rhs → List Rhs
  | .done => []
  | .terminal _ rest => rest.groups
  | .inst rest => rest.groups
  | .optional group rest => group :: rest.groups

/-- The alternatives `as` built so far, continued by a right-hand side. -/
def extend (as : List (List Symbol)) : Rhs → List (List Symbol)
  | .done => as
  | .terminal k rest => rest.extend (as.map (· ++ [.terminal k]))
  | .inst rest => rest.extend (as.map (· ++ [.inst]))
  | .optional group rest =>
    rest.extend (as ++ (group.extend [[]]).flatMap fun tail => as.map (· ++ tail))

variable {r : Rhs} {ss : List Symbol}

theorem reads_of_mem_expand (h : ss ∈ r.expand) : r.Reads ss := by
  induction r generalizing ss with
  | done =>
    rw [List.mem_singleton.1 h]
    exact .done
  | terminal k rest ih =>
    obtain ⟨tail, htail, rfl⟩ := List.mem_map.1 h
    exact .terminal (ih htail)
  | inst rest ih =>
    obtain ⟨tail, htail, rfl⟩ := List.mem_map.1 h
    exact .inst (ih htail)
  | optional group rest ihg ih =>
    obtain ⟨tail, htail, h⟩ := List.mem_flatMap.1 h
    obtain ⟨front, hfront, rfl⟩ := List.mem_map.1 h
    rcases List.mem_cons.1 hfront with rfl | hfront
    · exact .dropped (ih htail)
    · exact .taken (ihg hfront) (ih htail)

theorem Reads.mem_expand (h : r.Reads ss) : ss ∈ r.expand := by
  induction h with
  | done => exact List.mem_singleton.2 rfl
  | terminal _ ih => exact List.mem_map_of_mem ih
  | inst _ ih => exact List.mem_map_of_mem ih
  | @dropped group rest ss _ ih =>
    exact List.mem_flatMap.2 ⟨ss, ih, List.mem_map.2 ⟨[], List.mem_cons_self .., rfl⟩⟩
  | @taken group rest gs ss _ _ ihg ih =>
    exact List.mem_flatMap.2 ⟨ss, ih, List.mem_map.2 ⟨gs, List.mem_cons_of_mem _ ihg, rfl⟩⟩

/-- The alternatives are the readings. -/
theorem mem_expand_iff : ss ∈ r.expand ↔ r.Reads ss := ⟨reads_of_mem_expand, Reads.mem_expand⟩

/-! ## Order and number -/

theorem map_append_map (as : List (List Symbol)) (front tail : List Symbol) :
    (as.map (· ++ front)).map (· ++ tail) = as.map (· ++ (front ++ tail)) := by
  simp [Function.comp_def]

/-- Continuing alternatives by a right-hand side puts each of its own behind each of them; those built
    so far vary fastest. -/
theorem extend_eq (r : Rhs) (as : List (List Symbol)) :
    r.extend as = r.expand.flatMap fun tail => as.map (· ++ tail) := by
  induction r generalizing as with
  | done => simp [extend, expand]
  | terminal k rest ih => simp only [extend, ih, map_append_map, expand, List.flatMap_map, List.singleton_append]
  | inst rest ih => simp only [extend, ih, map_append_map, expand, List.flatMap_map, List.singleton_append]
  | optional group rest ihg ih =>
    have hgroup : group.extend [[]] = group.expand := by simp [ihg]
    have hstep : ∀ tail, (as ++ group.expand.flatMap fun gs => as.map (· ++ gs)).map (· ++ tail) =
        (([] :: group.expand).map (· ++ tail)).flatMap fun gs => as.map (· ++ gs) := by
      intro tail
      simp only [List.map_append, List.map_flatMap, map_append_map, List.map_cons, List.flatMap_cons,
        List.flatMap_map, List.nil_append]
    rw [extend, ih, hgroup, expand, List.flatMap_assoc]
    simp only [hstep]

theorem length_expand_optional (group rest : Rhs) :
    (Rhs.optional group rest).expand.length = (1 + group.expand.length) * rest.expand.length := by
  have hcopies : ∀ tail : List Symbol,
      (([] :: group.expand).map (· ++ tail)).length = 1 + group.expand.length := by
    intro tail
    rw [List.length_map, List.length_cons, Nat.add_comm]
  rw [expand, List.length_flatMap]
  simp only [hcopies]
  rw [List.map_const', List.sum_replicate_nat, Nat.mul_comm]

/-- Each group that is not inside another one multiplies the alternatives by those of its own and the
    one that leaves it out. -/
theorem length_expand (r : Rhs) :
    r.expand.length = (r.groups.map fun group => 1 + group.expand.length).prod := by
  induction r with
  | done => rfl
  | terminal k rest ih => rw [expand, List.length_map, ih, groups]
  | inst rest ih => rw [expand, List.length_map, ih, groups]
  | optional group rest _ ih =>
    rw [length_expand_optional, groups, List.map_cons, List.prod_cons, ih]

/-- The first alternative leaves every group out. -/
theorem head?_expand (r : Rhs) : r.expand.head? = some r.bare := by
  induction r with
  | done => rfl
  | terminal k rest ih => rw [expand, List.head?_map, ih, bare, Option.map_some]
  | inst rest ih => rw [expand, List.head?_map, ih, bare, Option.map_some]
  | optional group rest _ ih =>
    obtain ⟨more, hmore⟩ := List.head?_eq_some_iff.1 ih
    rw [expand, hmore, List.flatMap_cons, List.map_cons, List.cons_append, List.head?_cons, bare,
      List.nil_append]

/-- **Expansion lists the language of a right-hand side.**  Its alternatives are the readings with each
    group left out or taken; they are those that a run over the items from the left builds, in its
    order; there are as many of them as the choices at the outer groups multiply to; and the first one
    leaves every group out. -/
theorem expand_enumerates (r : Rhs) :
    (∀ ss, ss ∈ r.expand ↔ r.Reads ss) ∧
    r.expand = r.extend [[]] ∧
    r.expand.length = (r.groups.map fun group => 1 + group.expand.length).prod ∧
    r.expand.head? = some r.bare := by
  refine ⟨fun ss => mem_expand_iff, ?_, length_expand r, head?_expand r⟩
  rw [extend_eq]
  simp

/-- A group inside a group: three alternatives and not four. -/
example : (Rhs.optional (.terminal .elseBlock (.optional (.inst .done) .done))
    (.terminal .endBare .done)).expand =
      [[.terminal .endBare], [.terminal .elseBlock, .terminal .endBare],
        [.terminal .elseBlock, .inst, .terminal .endBare]] := rfl

end Rhs

end BlockScript
