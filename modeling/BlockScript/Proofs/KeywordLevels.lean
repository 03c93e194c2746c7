/-
  What one level of a keyword tree takes on a line.

  A literal stands between two parts of a line when it is spelled there and every edge of it that asks for
  a word boundary has one (`Stands`).  Three things decide what a level takes.

  1. The column.  The two walks over a line meet the columns in order, and each stops at the first one where
     a literal stands: the least column, or the last one behind blanks (`find_spec`).
  2. The order of the siblings.  A level in use is the level as written, sorted by length
     (`byLength_toList`), so the first literal that stands at a column is a longest one.
  3. Ties.  Siblings of one length cannot both stand at a column if none starts with what another spells
     (`TellsApart`), so the longest is only one.

  The main results are `find_eq_some_iff` and `find_eq_none_iff`: what a level takes, said of the level as it
  was written.
-/
import BlockScript.Paint.Matcher
import BlockScript.Proofs.LineLookup
import Mathlib.Data.List.Sort

namespace BlockScript

variable {ignoreCase : Bool}

/-! ## One literal at one place -/

/-- What a character counts as under the case rule. -/
def caseKey (ignoreCase : Bool) (c : Char) : Char := if ignoreCase then foldCase c else c

theorem sameChar_iff {a b : Char} :
    sameChar ignoreCase a b ↔ caseKey ignoreCase a = caseKey ignoreCase b := by
  cases ignoreCase <;> simp [sameChar, caseKey]

theorem map_caseKey_false (l : Text) : l.map (caseKey false) = l := List.map_id l

theorem spelledAt_iff {l rest : Text} :
    spelledAt ignoreCase l rest ↔
      ∃ w after : Text, rest = w ++ after ∧ l.map (caseKey ignoreCase) = w.map (caseKey ignoreCase) := by
  induction l generalizing rest with
  | nil => simp [spelledAt]
  | cons a l ih =>
    cases rest with
    | nil => simp [spelledAt]
    | cons b rest =>
      rw [spelledAt, Bool.and_eq_true, sameChar_iff, ih]
      constructor
      · rintro ⟨hab, w, after, rfl, hw⟩
        exact ⟨b :: w, after, rfl, by rw [List.map_cons, List.map_cons, hab, hw]⟩
      · rintro ⟨w, after, hrest, hw⟩
        cases w with
        | nil => simp at hw
        | cons x w =>
          obtain ⟨rfl, rfl⟩ := List.cons.inj hrest
          obtain ⟨hab, hw⟩ := List.cons.inj hw
          exact ⟨hab, w, after, rfl, hw⟩

/-- Whether the literal `l` stands between `before` and `after` as the word `w`: it is spelled so under the
    case rule, and there is a word boundary at each edge that asks for one. -/
structure Stands (ignoreCase : Bool) (before w after l : Text) : Prop where
  spelled : l.map (caseKey ignoreCase) = w.map (caseKey ignoreCase)
  left : l.head?.any needsBoundary → wordBoundary before.getLast? w.head?
  right : l.getLast?.any needsBoundary → wordBoundary w.getLast? after.head?

theorem Stands.length_eq {before w after l : Text} (h : Stands ignoreCase before w after l) :
    l.length = w.length := by
  simpa using congrArg List.length h.spelled

/-- Where case counts a literal stands as it is written. -/
theorem Stands.eq_literal {before w after l : Text} (h : Stands false before w after l) : l = w := by
  rw [← map_caseKey_false l, h.spelled, map_caseKey_false]

theorem presentAt_iff {before rest l : Text} (hl : l ≠ []) :
    presentAt ignoreCase before.getLast? rest l ↔
      ∃ w after : Text, rest = w ++ after ∧ Stands ignoreCase before w after l := by
  have hhead : ∀ w after : Text, l.length = w.length → (w ++ after).head? = w.head? := by
    intro w after hlen
    cases w with
    | nil => exact absurd (List.length_eq_zero_iff.1 hlen) hl
    | cons c w => rfl
  have hcut : ∀ w after : Text, l.length = w.length →
      (w ++ after).take l.length = w ∧ (w ++ after).drop l.length = after := by
    intro w after hlen
    rw [hlen]
    exact ⟨List.take_left, List.drop_left⟩
  have hedge : ∀ x y : Bool, (!x || y) = true ↔ (x = true → y = true) := by decide
  have hne : (!l.isEmpty) = true := by simpa using hl
  simp only [presentAt, hne, Bool.true_and, Bool.and_eq_true, spelledAt_iff, hedge]
  constructor
  · rintro ⟨⟨⟨w, after, rfl, hw⟩, hleft⟩, hright⟩
    have hlen : l.length = w.length := by simpa using congrArg List.length hw
    rw [hhead w after hlen] at hleft
    rw [(hcut w after hlen).1, (hcut w after hlen).2] at hright
    exact ⟨w, after, rfl, hw, hleft, hright⟩
  · rintro ⟨w, after, rfl, h⟩
    have hlen := h.length_eq
    rw [hhead w after hlen, (hcut w after hlen).1, (hcut w after hlen).2]
    exact ⟨⟨⟨w, after, rfl, h.spelled⟩, h.left⟩, h.right⟩

/-! ## The first literal of a column -/

/-- Whether the first branch has a literal at least as long. -/
def Branch.Longer (a b : Branch) : Prop := b.literal.size ≤ a.literal.size

instance : DecidableRel Branch.Longer := fun a b => inferInstanceAs (Decidable (b.literal.size ≤ a.literal.size))

section Column

variable {bs : List Branch} {before rest : Text} {p : Nat} {hit : Hit}

theorem hitHere_eq_none_iff (hne : ∀ b ∈ bs, b.literal ≠ []) :
    hitHere ignoreCase bs before.getLast? p rest = none ↔
      ∀ b ∈ bs, ∀ w after : Text, rest = w ++ after → ¬Stands ignoreCase before w after b.literal := by
  rw [hitHere, Option.map_eq_none_iff, List.find?_eq_none]
  constructor
  · intro h b hb w after hrest hstands
    exact h b hb ((presentAt_iff (hne b hb)).2 ⟨w, after, hrest, hstands⟩)
  · intro h b hb hpresent
    obtain ⟨w, after, hrest, hstands⟩ := (presentAt_iff (hne b hb)).1 hpresent
    exact h b hb w after hrest hstands

/-- **The first literal that stands at a column is a longest one**, if longer literals come first. -/
theorem hitHere_eq_some (hne : ∀ b ∈ bs, b.literal ≠ []) (hsorted : bs.Pairwise Branch.Longer)
    (h : hitHere ignoreCase bs before.getLast? p rest = some hit) :
    hit.start = p ∧ hit.branch ∈ bs ∧
      (∃ w after : Text, rest = w ++ after ∧ hit.stop = p + w.size ∧
        Stands ignoreCase before w after hit.branch.literal) ∧
      ∀ b ∈ bs, ∀ w after : Text, rest = w ++ after → Stands ignoreCase before w after b.literal →
        hit.branch.Longer b := by
  obtain ⟨first, hfirst, rfl⟩ := Option.map_eq_some_iff.1 h
  obtain ⟨hpresent, shorter, others, rfl, hnone⟩ := List.find?_eq_some_iff_append.1 hfirst
  have hmem : first ∈ shorter ++ first :: others := by simp
  obtain ⟨w, after, rfl, hstands⟩ := (presentAt_iff (hne first hmem)).1 hpresent
  refine ⟨rfl, hmem, ⟨w, after, rfl, ?_, hstands⟩, ?_⟩
  · show p + Text.size (List.take first.literal.length (w ++ after)) = p + w.size
    rw [hstands.length_eq, List.take_left]
  · intro b hb w' after' hrest hstands'
    show first.Longer b
    have hpresent' := (presentAt_iff (hne b hb)).2 ⟨w', after', hrest, hstands'⟩
    rcases List.mem_append.1 hb with hb | hb
    · -- what comes before the first that stands does not stand
      have habsent := hnone b hb
      rw [hpresent'] at habsent
      cases habsent
    · rcases List.mem_cons.1 hb with rfl | hb
      · exact Nat.le_refl _
      · exact List.rel_of_pairwise_cons (List.pairwise_append.1 hsorted).2.1 hb

/-! ## The column -/

/-- What is found at a column: behind `skipped`, at the front of what is left. -/
def hitBehind (ignoreCase : Bool) (bs : List Branch) (before : Text) (p : Nat) (skipped rest : Text) :
    Option Hit :=
  hitHere ignoreCase bs (before ++ skipped).getLast? (p + skipped.size) rest

theorem hitBehind_nil (ignoreCase : Bool) (bs : List Branch) (before : Text) (p : Nat) (rest : Text) :
    hitBehind ignoreCase bs before p [] rest = hitHere ignoreCase bs before.getLast? p rest := by
  rw [hitBehind, List.append_nil]
  rfl

theorem hitBehind_cons {c : Char} {skipped : Text} :
    hitBehind ignoreCase bs before p (c :: skipped) rest =
      hitBehind ignoreCase bs (before ++ [c]) (p + c.utf8Size) skipped rest := by
  rw [hitBehind, hitBehind, List.append_assoc, Text.size_cons, Nat.add_assoc]
  rfl

theorem hitHere_nil (hne : ∀ b ∈ bs, b.literal ≠ []) :
    hitHere ignoreCase bs before.getLast? p [] = none := by
  rw [hitHere_eq_none_iff hne]
  intro b hb w after hrest hstands
  obtain ⟨rfl, -⟩ := List.append_eq_nil_iff.1 hrest.symm
  exact hne b hb (List.length_eq_zero_iff.1 hstands.length_eq)

/-- The ways to split a text: in front of its first character, and further on. -/
theorem forall_split_cons {Q : Text → Text → Prop} {c : Char} {cs : Text} :
    (∀ skipped rest, c :: cs = skipped ++ rest → Q skipped rest) ↔
      Q [] (c :: cs) ∧ ∀ skipped rest, cs = skipped ++ rest → Q (c :: skipped) rest := by
  constructor
  · exact fun h => ⟨h [] _ rfl, fun skipped rest hcs => h (c :: skipped) rest (by rw [hcs]; rfl)⟩
  · rintro ⟨hfront, hbehind⟩ skipped rest hsplit
    cases skipped with
    | nil =>
      obtain rfl : c :: cs = rest := hsplit
      exact hfront
    | cons x skipped =>
      obtain ⟨rfl, hcs⟩ := List.cons.inj hsplit
      exact hbehind skipped rest hcs

/-- **The walk over a line takes the first column.** -/
theorem hitAnywhere_spec (before : Text) (p : Nat) (rest : Text) (hit : Hit)
    (hne : ∀ b ∈ bs, b.literal ≠ []) :
    (hitAnywhere ignoreCase bs before.getLast? p rest = none →
      ∀ skipped rest', rest = skipped ++ rest' → hitBehind ignoreCase bs before p skipped rest' = none) ∧
    (hitAnywhere ignoreCase bs before.getLast? p rest = some hit →
      ∃ skipped rest', rest = skipped ++ rest' ∧ hitBehind ignoreCase bs before p skipped rest' = some hit ∧
        ∀ skipped' rest'', rest = skipped' ++ rest'' → Text.size skipped' < Text.size skipped →
          hitBehind ignoreCase bs before p skipped' rest'' = none) := by
  induction rest generalizing before p with
  | nil =>
    constructor
    · intro _ skipped rest' hrest
      obtain ⟨rfl, rfl⟩ := List.append_eq_nil_iff.1 hrest.symm
      exact hitHere_nil hne
    · intro h
      cases h
  | cons c cs ih =>
    have hfront := hitBehind_nil ignoreCase bs before p (c :: cs)
    obtain ⟨ihnone, ihsome⟩ := ih (before ++ [c]) (p + c.utf8Size)
    rw [List.getLast?_concat] at ihnone ihsome
    rw [hitAnywhere]
    split
    · next found hhere =>
      constructor
      · intro h
        cases h
      · intro h
        refine ⟨[], c :: cs, rfl, by rw [hfront, hhere, h], fun skipped' rest'' _ hlen => ?_⟩
        exact absurd hlen (Nat.not_lt_zero _)
    · next hhere =>
      rw [hhere] at hfront
      constructor
      · intro h
        refine forall_split_cons.2 ⟨hfront, fun skipped rest' hcs => ?_⟩
        rw [hitBehind_cons]
        exact ihnone h skipped rest' hcs
      · intro h
        obtain ⟨skipped, rest', hrest, hbehind, hfirst⟩ := ihsome h
        refine ⟨c :: skipped, rest', by rw [hrest]; rfl, by rw [hitBehind_cons, hbehind], ?_⟩
        refine forall_split_cons.2 ⟨fun _ => hfront, fun skipped' rest'' hcs hlen => ?_⟩
        rw [hitBehind_cons]
        exact hfirst skipped' rest'' hcs (Nat.lt_of_add_lt_add_left hlen)

/-- Whether a text is made of spaces and tabs. -/
def Text.Blanks (t : Text) : Prop := ∀ c ∈ t, c = ' ' ∨ c = '\t'

theorem Text.blanks_cons {c : Char} {t : Text} : Text.Blanks (c :: t) ↔ (c = ' ' ∨ c = '\t') ∧ t.Blanks :=
  List.forall_mem_cons

/-- **The walk over blanks takes the last column.** -/
theorem hitAfterBlanks_spec (before : Text) (p : Nat) (rest : Text) (hit : Hit)
    (hne : ∀ b ∈ bs, b.literal ≠ []) :
    (hitAfterBlanks ignoreCase bs before.getLast? p rest = none →
      ∀ skipped rest', rest = skipped ++ rest' → skipped.Blanks →
        hitBehind ignoreCase bs before p skipped rest' = none) ∧
    (hitAfterBlanks ignoreCase bs before.getLast? p rest = some hit →
      ∃ skipped rest', rest = skipped ++ rest' ∧ skipped.Blanks ∧
        hitBehind ignoreCase bs before p skipped rest' = some hit ∧
        ∀ skipped' rest'', rest = skipped' ++ rest'' → skipped'.Blanks → skipped.size < skipped'.size →
          hitBehind ignoreCase bs before p skipped' rest'' = none) := by
  induction rest generalizing before p with
  | nil =>
    constructor
    · intro _ skipped rest' hrest _
      obtain ⟨rfl, rfl⟩ := List.append_eq_nil_iff.1 hrest.symm
      exact hitHere_nil hne
    · intro h
      cases h
  | cons c cs ih =>
    have hfront := hitBehind_nil ignoreCase bs before p (c :: cs)
    obtain ⟨ihnone, ihsome⟩ := ih (before ++ [c]) (p + c.utf8Size)
    rw [List.getLast?_concat] at ihnone ihsome
    rw [hitAfterBlanks]
    split
    · next found hlater =>
      constructor
      · intro h
        cases h
      · intro h
        obtain rfl : found = hit := Option.some.inj h
        split at hlater
        case isFalse => cases hlater
        case isTrue hc =>
          obtain ⟨skipped, rest', hrest, hblank, hbehind, hlast⟩ := ihsome hlater
          refine ⟨c :: skipped, rest', by rw [hrest]; rfl, Text.blanks_cons.2 ⟨hc, hblank⟩,
            by rw [hitBehind_cons, hbehind], ?_⟩
          refine forall_split_cons.2 ⟨fun _ hlen => absurd hlen (Nat.not_lt_zero _), ?_⟩
          intro skipped' rest'' hcs hblank' hlen
          rw [hitBehind_cons]
          exact hlast skipped' rest'' hcs (Text.blanks_cons.1 hblank').2 (Nat.lt_of_add_lt_add_left hlen)
    · next hlater =>
      -- no column behind the first one is left
      have hbehind : ∀ skipped rest', cs = skipped ++ rest' → Text.Blanks (c :: skipped) →
          hitBehind ignoreCase bs before p (c :: skipped) rest' = none := by
        intro skipped rest' hcs hblank
        obtain ⟨hc, hblank⟩ := Text.blanks_cons.1 hblank
        rw [if_pos hc] at hlater
        rw [hitBehind_cons]
        exact ihnone hlater skipped rest' hcs hblank
      constructor
      · intro h
        exact forall_split_cons.2 ⟨fun _ => hfront.trans h, hbehind⟩
      · intro h
        refine ⟨[], c :: cs, rfl, by simp [Text.Blanks], hfront.trans h, ?_⟩
        exact forall_split_cons.2 ⟨fun _ hlen => absurd hlen (Nat.lt_irrefl _),
          fun skipped' rest'' hcs hblank _ => hbehind skipped' rest'' hcs hblank⟩

end Column

/-! ## One level -/

namespace KeywordTree

variable {t : KeywordTree} {line : Text} {cursor : Nat}

/-- What counts for word boundaries of the text before the cursor: all of it for a level that matches
    anywhere, and nothing for any other. -/
def context (t : KeywordTree) (gone : Text) : Text := if t.anywhere then gone else []

theorem context_nil (t : KeywordTree) : t.context [] = [] := by simp [context]

/-- Whether the literal `l` is present from `p` to `stop`, at a column that the level can reach from the
    cursor: any column from there on, or one that only blanks separate from it. -/
def Reaches (t : KeywordTree) (ignoreCase : Bool) (line : Text) (cursor p stop : Nat) (l : Text) : Prop :=
  ∃ gone skipped w after : Text, line = gone ++ (skipped ++ (w ++ after)) ∧ gone.size = cursor ∧
    p = cursor + skipped.size ∧ stop = p + w.size ∧ (t.anywhere = false → skipped.Blanks) ∧
    Stands ignoreCase (t.context gone ++ skipped) w after l

/-- The columns that a level looks at, and which of them it takes. -/
theorem find_columns (gone rest : Text) (hit : Hit) (hne : ∀ b ∈ t.children.toList, b.literal ≠ []) :
    (t.find ignoreCase (gone ++ rest) gone.size = none →
      ∀ skipped rest', rest = skipped ++ rest' → (t.anywhere = false → Text.Blanks skipped) →
        hitBehind ignoreCase t.children.toList (t.context gone) gone.size skipped rest' = none) ∧
    (t.find ignoreCase (gone ++ rest) gone.size = some hit →
      ∃ skipped rest', rest = skipped ++ rest' ∧ (t.anywhere = false → Text.Blanks skipped) ∧
        hitBehind ignoreCase t.children.toList (t.context gone) gone.size skipped rest' = some hit ∧
        ∀ skipped' rest'', rest = skipped' ++ rest'' → (t.anywhere = false → Text.Blanks skipped') →
          (if t.anywhere then Text.size skipped' < Text.size skipped
            else Text.size skipped < Text.size skipped') →
          hitBehind ignoreCase t.children.toList (t.context gone) gone.size skipped' rest'' = none) := by
  rw [find, Text.splitAt?_size_append]
  cases hany : t.anywhere with
  | true =>
    simp only [context, hany, if_true]
    obtain ⟨hnone, hsome⟩ := hitAnywhere_spec gone gone.size rest hit hne
    refine ⟨fun h skipped rest' hrest _ => hnone h skipped rest' hrest, fun h => ?_⟩
    obtain ⟨skipped, rest', hrest, hbehind, hfirst⟩ := hsome h
    exact ⟨skipped, rest', hrest, nofun, hbehind, fun skipped' rest'' hrest' _ => hfirst skipped' rest'' hrest'⟩
  | false =>
    simp only [context, hany, Bool.false_eq_true, if_false]
    obtain ⟨hnone, hsome⟩ := hitAfterBlanks_spec [] gone.size rest hit hne
    refine ⟨fun h skipped rest' hrest hblank => hnone h skipped rest' hrest (hblank trivial), fun h => ?_⟩
    obtain ⟨skipped, rest', hrest, hblank, hbehind, hlast⟩ := hsome h
    exact ⟨skipped, rest', hrest, fun _ => hblank, hbehind,
      fun skipped' rest'' hrest' hblank' => hlast skipped' rest'' hrest' (hblank' trivial)⟩

/-- Nothing is found where no literal can be reached. -/
theorem not_reaches_of_find (hne : ∀ b ∈ t.children.toList, b.literal ≠ [])
    (h : t.find ignoreCase line cursor = none) {b : Branch} (hb : b ∈ t.children.toList) (p stop : Nat) :
    ¬t.Reaches ignoreCase line cursor p stop b.literal := by
  rintro ⟨gone, skipped, w, after, rfl, rfl, -, -, hblank, hstands⟩
  have hnone := (find_columns gone _ ⟨0, 0, b⟩ hne).1 h skipped (w ++ after) rfl hblank
  exact (hitHere_eq_none_iff hne).1 hnone b hb w after rfl hstands

/-- **What is found** is a literal of the level at a column that the level prefers to every other one it
    can reach, and no literal present at that column is longer. -/
theorem find_spec {hit : Hit} (hne : ∀ b ∈ t.children.toList, b.literal ≠ [])
    (hsorted : t.children.toList.Pairwise Branch.Longer) (h : t.find ignoreCase line cursor = some hit) :
    hit.branch ∈ t.children.toList ∧
    t.Reaches ignoreCase line cursor hit.start hit.stop hit.branch.literal ∧
    (∀ b ∈ t.children.toList, ∀ p stop, t.Reaches ignoreCase line cursor p stop b.literal →
      if t.anywhere then hit.start ≤ p else p ≤ hit.start) ∧
    (∀ b ∈ t.children.toList, ∀ stop, t.Reaches ignoreCase line cursor hit.start stop b.literal →
      hit.branch.Longer b) := by
  -- the cursor stands between two characters
  obtain ⟨gone, rest, hs⟩ : ∃ gone rest, line.splitAt? cursor = some (gone, rest) := by
    cases hs : line.splitAt? cursor with
    | none =>
      rw [find, hs] at h
      cases h
    | some cut => exact ⟨cut.1, cut.2, rfl⟩
  obtain ⟨rfl, rfl⟩ := Text.splitAt?_append hs
  obtain ⟨skipped, rest', rfl, hblank, hbehind, hother⟩ := (find_columns gone rest hit hne).2 h
  obtain ⟨hstart, hmem, ⟨w, after, rfl, hstop, hstands⟩, hlongest⟩ := hitHere_eq_some hne hsorted hbehind
  refine ⟨hmem, ⟨gone, skipped, w, after, rfl, rfl, hstart, by omega, hblank, hstands⟩, ?_, ?_⟩
  · rintro b hb p stop ⟨gone', skipped', w', after', heq, hgone, rfl, -, hblank', hstands'⟩
    obtain ⟨rfl, hrest⟩ := Text.append_inj_of_size heq hgone.symm
    rw [hstart]
    by_contra hcolumn
    have hbefore : if t.anywhere then Text.size skipped' < Text.size skipped
        else Text.size skipped < Text.size skipped' := by
      split at hcolumn
      · next hany => rw [if_pos hany]; omega
      · next hany => rw [if_neg hany]; omega
    have hnone := hother skipped' (w' ++ after') hrest hblank' hbefore
    exact (hitHere_eq_none_iff hne).1 hnone b hb w' after' rfl hstands'
  · rintro b hb stop ⟨gone', skipped', w', after', heq, hgone, hcolumn, -, -, hstands'⟩
    obtain ⟨rfl, hrest⟩ := Text.append_inj_of_size heq hgone.symm
    obtain ⟨rfl, hrest'⟩ := Text.append_inj_of_size hrest (by omega)
    exact hlongest b hb w' after' hrest' hstands'

end KeywordTree

/-! ## The order of a level in use -/

/-- A tree as it is put to use: every level with longer literals first. -/
def KeywordTree.ordered (t : KeywordTree) : KeywordTree := { t with children := t.children.byLength }

/-- A branch whose level is put to use. -/
def Branch.ordered (b : Branch) : Branch := ⟨b.literal, b.next.map KeywordTree.ordered⟩

namespace Branches

theorem insertLeaf_toList (l : Text) (bs : Branches) :
    (bs.insertLeaf l).toList = bs.toList.orderedInsert Branch.Longer ⟨l, none⟩ := by
  induction bs with
  | nil => rfl
  | leaf l' rest ih | branch l' colour anywhere children rest _ ih =>
    by_cases h : l'.size ≤ l.size
    · rw [insertLeaf, if_pos h]
      exact Eq.symm (List.orderedInsert_cons_of_le Branch.Longer _ (show Branch.Longer _ _ from h))
    · rw [insertLeaf, if_neg h, toList, ih]
      exact Eq.symm (List.orderedInsert_of_not_le Branch.Longer _ (show ¬Branch.Longer _ _ from h))

theorem insertBranch_toList (l : Text) (t : KeywordTree) (bs : Branches) :
    (bs.insertBranch l t).toList = bs.toList.orderedInsert Branch.Longer ⟨l, some t⟩ := by
  induction bs with
  | nil => rfl
  | leaf l' rest ih | branch l' colour anywhere children rest _ ih =>
    by_cases h : l'.size ≤ l.size
    · rw [insertBranch, if_pos h]
      exact Eq.symm (List.orderedInsert_cons_of_le Branch.Longer _ (show Branch.Longer _ _ from h))
    · rw [insertBranch, if_neg h, toList, ih]
      exact Eq.symm (List.orderedInsert_of_not_le Branch.Longer _ (show ¬Branch.Longer _ _ from h))

/-- **A level in use is the level as written, sorted by length.** -/
theorem byLength_toList (bs : Branches) :
    bs.byLength.toList = (bs.toList.map Branch.ordered).insertionSort Branch.Longer := by
  induction bs with
  | nil => rfl
  | leaf l rest ih =>
    rw [byLength, insertLeaf_toList, ih]
    rfl
  | branch l colour anywhere children rest _ ih =>
    rw [byLength, insertBranch_toList, ih]
    rfl

end Branches

instance : Std.Total Branch.Longer := ⟨fun a b => Nat.le_total b.literal.size a.literal.size⟩

instance : IsTrans Branch Branch.Longer := ⟨fun _ _ _ hab hbc => Nat.le_trans hbc hab⟩

namespace KeywordTree

variable {t : KeywordTree}

theorem ordered_sorted (t : KeywordTree) : t.ordered.children.toList.Pairwise Branch.Longer := by
  rw [ordered, Branches.byLength_toList]
  exact List.pairwise_insertionSort ..

theorem mem_ordered {b : Branch} :
    b ∈ t.ordered.children.toList ↔ ∃ b' ∈ t.children.toList, b'.ordered = b := by
  rw [ordered, Branches.byLength_toList, List.mem_insertionSort, List.mem_map]

/-! ## What a level takes -/

/-- Whether the siblings of a level can be told apart: none is empty, and of two siblings of one length
    neither starts with what the other spells. -/
structure TellsApart (t : KeywordTree) (ignoreCase : Bool) : Prop where
  ne_nil : ∀ b ∈ t.children.toList, b.literal ≠ []
  unique : ∀ b ∈ t.children.toList, ∀ b' ∈ t.children.toList, b.literal.size = b'.literal.size →
    b.literal.map (caseKey ignoreCase) <+: b'.literal.map (caseKey ignoreCase) → b = b'

/-- Whether the level can reach none of its siblings from the cursor. -/
def Misses (t : KeywordTree) (ignoreCase : Bool) (line : Text) (cursor : Nat) : Prop :=
  ∀ b ∈ t.children.toList, ∀ p stop, ¬t.Reaches ignoreCase line cursor p stop b.literal

/-- Whether the level takes the branch `b` from `p` to `stop`: of the columns it can reach where a sibling
    is present, the least if it matches anywhere and else the last, and there the longest sibling. -/
structure Takes (t : KeywordTree) (ignoreCase : Bool) (line : Text) (cursor p stop : Nat) (b : Branch) :
    Prop where
  mem : b ∈ t.children.toList
  reaches : t.Reaches ignoreCase line cursor p stop b.literal
  column : ∀ b' ∈ t.children.toList, ∀ p' stop', t.Reaches ignoreCase line cursor p' stop' b'.literal →
    if t.anywhere then p ≤ p' else p' ≤ p
  longest : ∀ b' ∈ t.children.toList, ∀ stop', t.Reaches ignoreCase line cursor p stop' b'.literal →
    b' = b ∨ b'.literal.size < b.literal.size

variable {line : Text} {cursor p p' stop stop' : Nat} {l l' : Text} {b b' : Branch}

theorem Takes.not_misses (h : t.Takes ignoreCase line cursor p stop b) : ¬t.Misses ignoreCase line cursor :=
  fun hmisses => hmisses b h.mem p stop h.reaches

/-- Literals reached at one column spell fronts of one text. -/
theorem Reaches.meet (h : t.Reaches ignoreCase line cursor p stop l)
    (h' : t.Reaches ignoreCase line cursor p stop' l') :
    ∃ w w' : Text, (w <+: w' ∨ w' <+: w) ∧ stop = p + w.size ∧ stop' = p + w'.size ∧
      l.map (caseKey ignoreCase) = w.map (caseKey ignoreCase) ∧
      l'.map (caseKey ignoreCase) = w'.map (caseKey ignoreCase) := by
  obtain ⟨gone, skipped, w, after, rfl, rfl, hp, hstop, -, hstands⟩ := h
  obtain ⟨gone', skipped', w', after', heq, hgone, hp', hstop', -, hstands'⟩ := h'
  obtain ⟨rfl, hrest⟩ := Text.append_inj_of_size heq hgone.symm
  obtain ⟨rfl, hrest'⟩ := Text.append_inj_of_size hrest (by omega)
  have hfront : w <+: w ++ after := List.prefix_append ..
  have hfront' : w' <+: w ++ after := hrest' ▸ List.prefix_append ..
  exact ⟨w, w', List.prefix_or_prefix_of_prefix hfront hfront', hstop, hstop', hstands.spelled, hstands'.spelled⟩

/-- A literal reached at a column ends in one place. -/
theorem Reaches.stop_unique (h : t.Reaches ignoreCase line cursor p stop l)
    (h' : t.Reaches ignoreCase line cursor p stop' l) : stop = stop' := by
  obtain ⟨w, w', hfront, rfl, rfl, hspelled, hspelled'⟩ := h.meet h'
  have hlen : w.length = w'.length := by simpa using congrArg List.length (hspelled.symm.trans hspelled')
  rcases hfront with hfront | hfront
  · rw [hfront.eq_of_length hlen]
  · rw [hfront.eq_of_length hlen.symm]

/-- Siblings of one length that are reached at one column are one sibling. -/
theorem TellsApart.eq_of_reaches (h : t.TellsApart ignoreCase) (hb : b ∈ t.children.toList)
    (hb' : b' ∈ t.children.toList) (hsize : b.literal.size = b'.literal.size)
    (hr : t.Reaches ignoreCase line cursor p stop b.literal)
    (hr' : t.Reaches ignoreCase line cursor p stop' b'.literal) : b = b' := by
  obtain ⟨w, w', hfront, -, -, hspelled, hspelled'⟩ := hr.meet hr'
  rcases hfront with hfront | hfront
  · exact h.unique b hb b' hb' hsize (by rw [hspelled, hspelled']; exact hfront.map _)
  · exact (h.unique b' hb' b hb hsize.symm (by rw [hspelled, hspelled']; exact hfront.map _)).symm

/-- **A level takes one thing.** -/
theorem Takes.eq (h : t.Takes ignoreCase line cursor p stop b) (h' : t.Takes ignoreCase line cursor p' stop' b') :
    p = p' ∧ stop = stop' ∧ b = b' := by
  have hle := h.column b' h'.mem p' stop' h'.reaches
  have hge := h'.column b h.mem p stop h.reaches
  obtain rfl : p = p' := by
    by_cases hany : t.anywhere
    · rw [if_pos hany] at hle hge
      omega
    · rw [if_neg hany] at hle hge
      omega
  obtain rfl : b = b' := by
    rcases h.longest b' h'.mem stop' h'.reaches with rfl | hlt
    · rfl
    · rcases h'.longest b h.mem stop h.reaches with rfl | hlt'
      · rfl
      · omega
  exact ⟨rfl, h.reaches.stop_unique h'.reaches, rfl⟩

theorem ordered_ne_nil (h : t.TellsApart ignoreCase) : ∀ b ∈ t.ordered.children.toList, b.literal ≠ [] := by
  intro b hb
  obtain ⟨b', hb', rfl⟩ := mem_ordered.1 hb
  exact h.ne_nil b' hb'

/-- **Nothing is found exactly where no sibling can be reached.** -/
theorem find_eq_none_iff (h : t.TellsApart ignoreCase) :
    t.ordered.find ignoreCase line cursor = none ↔ t.Misses ignoreCase line cursor := by
  constructor
  · intro hnone b hb p stop hreaches
    exact not_reaches_of_find (ordered_ne_nil h) hnone (mem_ordered.2 ⟨b, hb, rfl⟩) p stop hreaches
  · intro hnone
    cases hfind : t.ordered.find ignoreCase line cursor with
    | none => rfl
    | some hit =>
      obtain ⟨hmem, hreaches, -⟩ := find_spec (ordered_ne_nil h) t.ordered_sorted hfind
      obtain ⟨b, hb, heq⟩ := mem_ordered.1 hmem
      rw [← heq] at hreaches
      exact absurd hreaches (hnone b hb hit.start hit.stop)

theorem takes_of_find {hit : Hit} (h : t.TellsApart ignoreCase)
    (hfind : t.ordered.find ignoreCase line cursor = some hit) :
    ∃ b, t.Takes ignoreCase line cursor hit.start hit.stop b ∧ hit.branch = b.ordered := by
  obtain ⟨hmem, hreaches, hcolumn, hlongest⟩ := find_spec (ordered_ne_nil h) t.ordered_sorted hfind
  obtain ⟨b, hb, heq⟩ := mem_ordered.1 hmem
  rw [← heq] at hreaches hlongest
  refine ⟨b, ⟨hb, hreaches, ?_, ?_⟩, heq.symm⟩
  · intro b' hb' p' stop' hr
    exact hcolumn b'.ordered (mem_ordered.2 ⟨b', hb', rfl⟩) p' stop' hr
  · intro b' hb' stop' hr
    have hle : b'.literal.size ≤ b.literal.size := hlongest b'.ordered (mem_ordered.2 ⟨b', hb', rfl⟩) stop' hr
    rcases Nat.lt_or_eq_of_le hle with hlt | hsize
    · exact Or.inr hlt
    · exact Or.inl (h.eq_of_reaches hb' hb hsize hr hreaches)

/-- **What is found is what the level as written takes.** -/
theorem find_eq_some_iff {hit : Hit} (h : t.TellsApart ignoreCase) :
    t.ordered.find ignoreCase line cursor = some hit ↔
      ∃ b, t.Takes ignoreCase line cursor hit.start hit.stop b ∧ hit.branch = b.ordered := by
  constructor
  · exact takes_of_find h
  · rintro ⟨b, htakes, hbranch⟩
    cases hfind : t.ordered.find ignoreCase line cursor with
    | none => exact absurd ((find_eq_none_iff h).1 hfind) htakes.not_misses
    | some found =>
      obtain ⟨b', htakes', hbranch'⟩ := takes_of_find h hfind
      obtain ⟨hstart, hstop, rfl⟩ := htakes'.eq htakes
      have hfound : found = hit := by
        cases found
        cases hit
        simp_all
      rw [hfound]

end KeywordTree

end BlockScript
