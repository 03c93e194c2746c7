/-
  What a checked keyword tree paints on a line.

  1. Checking a tree leaves siblings that can be told apart, on every level of it: where case counts, and
     for ASCII literals also where it does not (`tellsApart_of_check`).
  2. `Matches` says step by step what a tree as written paints: a level takes a literal, the level behind
     the literal goes on where it ends, and a level that matches anywhere then starts over.
  3. A run of the tree in use goes through such steps, and there is only one way through (`run_eq_iff`).

  The main result is `takes_leftmost_longest`.
-/
import BlockScript.Proofs.KeywordLevels
import BlockScript.Proofs.PaintedRows

namespace BlockScript

variable {ignoreCase : Bool}

/-! ## Checked siblings -/

namespace Branches

theorem checkLiteral_eq_ok {seen : List Text} {l : Text} (h : checkLiteral ignoreCase seen l = .ok ()) :
    l ≠ [] ∧ literalKey ignoreCase l ∉ seen := by
  unfold checkLiteral at h
  split at h
  · cases h
  · next hne =>
    split at h
    · cases h
    · next hseen => exact ⟨by simpa using hne, by simpa using hseen⟩

/-- One check after another is in order if both are. -/
theorem andThen_eq_ok {first : Except TreeError Unit} {second : Unit → Except TreeError Unit}
    (h : (first >>= second) = .ok ()) : first = .ok () ∧ second () = .ok () := by
  cases first with
  | error e => cases h
  | ok u => exact ⟨rfl, h⟩

/-- What a check of siblings finds in order: none is empty, no two have one key, and none has a key that was
    seen before them. -/
structure Distinct (ignoreCase : Bool) (seen : List Text) (bs : List Branch) : Prop where
  ne_nil : ∀ b ∈ bs, b.literal ≠ []
  unseen : ∀ b ∈ bs, literalKey ignoreCase b.literal ∉ seen
  nodup : (bs.map fun b => literalKey ignoreCase b.literal).Nodup

theorem Distinct.cons {seen : List Text} {b : Branch} {bs : List Branch}
    (h : b.literal ≠ [] ∧ literalKey ignoreCase b.literal ∉ seen)
    (hbs : Distinct ignoreCase (literalKey ignoreCase b.literal :: seen) bs) :
    Distinct ignoreCase seen (b :: bs) := by
  refine ⟨?_, ?_, ?_⟩
  · intro x hx
    rcases List.mem_cons.1 hx with rfl | hx
    · exact h.1
    · exact hbs.ne_nil x hx
  · intro x hx
    rcases List.mem_cons.1 hx with rfl | hx
    · exact h.2
    · exact fun hseen => hbs.unseen x hx (List.mem_cons_of_mem _ hseen)
  · rw [List.map_cons, List.nodup_cons]
    refine ⟨fun hmem => ?_, hbs.nodup⟩
    obtain ⟨x, hx, hkey⟩ := List.mem_map.1 hmem
    exact hbs.unseen x hx (by rw [hkey]; exact List.mem_cons_self ..)

theorem check_distinct {bs : Branches} {seen : List Text} (h : bs.check ignoreCase seen = .ok ()) :
    Distinct ignoreCase seen bs.toList := by
  induction bs generalizing seen with
  | nil => exact ⟨nofun, nofun, List.nodup_nil⟩
  | leaf l rest ih =>
    obtain ⟨hl, hrest⟩ := andThen_eq_ok h
    exact Distinct.cons (b := ⟨l, none⟩) (checkLiteral_eq_ok hl) (ih hrest)
  | branch l colour anywhere children rest _ ih =>
    obtain ⟨hl, hbelow⟩ := andThen_eq_ok h
    obtain ⟨-, hrest⟩ := andThen_eq_ok hbelow
    exact Distinct.cons (b := ⟨l, some ⟨colour, anywhere, children⟩⟩) (checkLiteral_eq_ok hl) (ih hrest)

theorem check_next {bs : Branches} {seen : List Text} (h : bs.check ignoreCase seen = .ok ()) {b : Branch}
    (hb : b ∈ bs.toList) {n : KeywordTree} (hn : b.next = some n) : n.children.check ignoreCase [] = .ok () := by
  induction bs generalizing seen with
  | nil => cases hb
  | leaf l rest ih =>
    obtain ⟨-, hrest⟩ := andThen_eq_ok h
    rcases List.mem_cons.1 hb with rfl | hb
    · cases hn
    · exact ih hrest hb
  | branch l colour anywhere children rest _ ih =>
    obtain ⟨-, hbelow⟩ := andThen_eq_ok h
    obtain ⟨hchildren, hrest⟩ := andThen_eq_ok hbelow
    rcases List.mem_cons.1 hb with rfl | hb
    · obtain rfl := Option.some.inj hn
      exact hchildren
    · exact ih hrest hb

/-- Whether the literals, those of levels below included, are made of ASCII characters. -/
def ascii : Branches → Bool
  | .nil => true
  | .leaf l rest => l.all (·.toNat < 128) && rest.ascii
  | .branch l _ _ children rest => l.all (·.toNat < 128) && children.ascii && rest.ascii

theorem ascii_mem {bs : Branches} (h : bs.ascii) {b : Branch} (hb : b ∈ bs.toList) :
    (∀ c ∈ b.literal, c.toNat < 128) ∧ ∀ n, b.next = some n → n.children.ascii := by
  induction bs with
  | nil => cases hb
  | leaf l rest ih =>
    simp only [ascii, Bool.and_eq_true, List.all_eq_true, decide_eq_true_eq] at h
    rcases List.mem_cons.1 hb with rfl | hb
    · exact ⟨h.1, nofun⟩
    · exact ih h.2 hb
  | branch l colour anywhere children rest _ ih =>
    simp only [ascii, Bool.and_eq_true, List.all_eq_true, decide_eq_true_eq] at h
    rcases List.mem_cons.1 hb with rfl | hb
    · refine ⟨h.1.1, fun n hn => ?_⟩
      obtain rfl := Option.some.inj hn
      exact h.1.2
    · exact ih h.2 hb

end Branches

/-! ## Keys of literals -/

theorem CharMap.find_below {m : CharMap} {n : Nat} (h : m.runs.tail.all (n ≤ ·.first)) {c : Char}
    (hc : c.toNat < n) : m.runs.find? (·.moves c.toNat) = m.runs.head?.filter (·.moves c.toNat) := by
  obtain ⟨runs⟩ := m
  cases runs with
  | nil => rfl
  | cons r runs =>
    have hrest : runs.find? (·.moves c.toNat) = none := by
      rw [List.find?_eq_none]
      intro r' hr' hmoves
      have hfirst : n ≤ r'.first := by simpa using List.all_eq_true.1 h r' hr'
      simp only [CharRun.moves, Bool.and_eq_true, decide_eq_true_eq] at hmoves
      omega
    show List.find? (·.moves c.toNat) (r :: runs) = Option.filter (·.moves c.toNat) (some r)
    rw [List.find?_cons, hrest, Option.filter_some]
    cases r.moves c.toNat <;> rfl

/-- ASCII letters are the first run of both tables, and no other run reaches below them. -/
theorem lowerForms_ascii {c : Char} (h : c.toNat < 128) : lowerForms.apply c = foldCase c := by
  rw [foldCase, CharMap.apply, CharMap.apply, CharMap.find_below (n := 128) (by decide) h,
    CharMap.find_below (n := 128) (by decide) h]
  rfl

theorem lowercaseAfter_ascii {l : Text} (before : Text) (h : ∀ c ∈ l, c.toNat < 128) :
    lowercaseAfter before l = l.map foldCase := by
  induction l generalizing before with
  | nil => rfl
  | cons c cs ih =>
    have hc := h c (List.mem_cons_self ..)
    have hsigma : c ≠ 'Σ' := by
      rintro rfl
      exact absurd hc (by decide)
    have hdotted : c ≠ 'İ' := by
      rintro rfl
      exact absurd hc (by decide)
    rw [lowercaseAfter, if_neg hsigma, if_neg hdotted, lowerForms_ascii hc,
      ih (c :: before) fun x hx => h x (List.mem_cons_of_mem _ hx)]
    rfl

/-- The key of a literal is its spelling under the case rule: always where case counts, and else for ASCII. -/
theorem literalKey_eq {l : Text} (h : ignoreCase = true → ∀ c ∈ l, c.toNat < 128) :
    literalKey ignoreCase l = l.map (caseKey ignoreCase) := by
  cases ignoreCase with
  | false => exact (map_caseKey_false l).symm
  | true => exact lowercaseAfter_ascii [] (h rfl)

theorem Text.size_ascii {t : Text} (h : ∀ c ∈ t, c.toNat < 128) : t.size = t.length := by
  induction t with
  | nil => rfl
  | cons c cs ih =>
    have hc : c.utf8Size = 1 := by
      rw [Char.utf8Size_eq_one_iff, UInt32.le_iff_toNat_le]
      exact Nat.le_of_lt_succ (h c (List.mem_cons_self ..))
    rw [size_cons, hc, ih fun x hx => h x (List.mem_cons_of_mem _ hx), List.length_cons]
    omega

/-- A front of a text that is as long as the text is all of it. -/
theorem Text.eq_of_prefix_of_size {a b : Text} (h : a <+: b) (hs : a.size = b.size) : a = b := by
  obtain ⟨rest, rfl⟩ := h
  have hwhole : a ++ rest = (a ++ rest) ++ [] := (List.append_nil _).symm
  exact (append_inj_of_size hwhole hs).1

namespace KeywordTree

variable {t s : KeywordTree} {line : Text} {cursor : Nat}

/-- Siblings of a checked level can be told apart. -/
theorem tellsApart_of_check (hcheck : t.children.check ignoreCase [] = .ok ())
    (hascii : ignoreCase = true → t.children.ascii) : t.TellsApart ignoreCase := by
  have hdistinct := Branches.check_distinct hcheck
  refine ⟨hdistinct.ne_nil, fun b hb b' hb' hsize hfront => ?_⟩
  have hkey : ∀ x ∈ t.children.toList, ignoreCase = true → ∀ c ∈ x.literal, c.toNat < 128 :=
    fun x hx hic => (Branches.ascii_mem (hascii hic) hx).1
  apply List.inj_on_of_nodup_map hdistinct.nodup hb hb'
  rw [literalKey_eq (hkey b hb), literalKey_eq (hkey b' hb')]
  cases ignoreCase with
  | false =>
    rw [map_caseKey_false, map_caseKey_false] at hfront
    rw [Text.eq_of_prefix_of_size hfront hsize]
  | true =>
    apply hfront.eq_of_length
    rw [List.length_map, List.length_map, ← Text.size_ascii (hkey b hb rfl), hsize,
      Text.size_ascii (hkey b' hb' rfl)]

/-! ## The levels of a tree -/

/-- The levels of a tree: its own, and those of the levels that follow its literals. -/
inductive Level (t : KeywordTree) : KeywordTree → Prop
  | top : t.Level t
  | under {s n : KeywordTree} {b : Branch} : t.Level s → b ∈ s.children.toList → b.next = some n → t.Level n

theorem Level.trans {n : KeywordTree} (h : t.Level s) (hn : s.Level n) : t.Level n := by
  induction hn with
  | top => exact h
  | under _ hb hnext ih => exact ih.under hb hnext

theorem Level.check (h : t.Level s) (hcheck : t.children.check ignoreCase [] = .ok ()) :
    s.children.check ignoreCase [] = .ok () := by
  induction h with
  | top => exact hcheck
  | under _ hb hnext ih => exact Branches.check_next ih hb hnext

theorem Level.ascii (h : t.Level s) (hascii : t.children.ascii) : s.children.ascii := by
  induction h with
  | top => exact hascii
  | under _ hb hnext ih => exact (Branches.ascii_mem ih hb).2 _ hnext

/-- The levels in use are the levels as written, each put in order. -/
theorem level_ordered {s' : KeywordTree} : t.ordered.Level s' ↔ ∃ s, t.Level s ∧ s.ordered = s' := by
  constructor
  · intro h
    induction h with
    | top => exact ⟨t, .top, rfl⟩
    | under _ hb hnext ih =>
      obtain ⟨s, hs, rfl⟩ := ih
      obtain ⟨b, hmem, rfl⟩ := mem_ordered.1 hb
      obtain ⟨n, hn, rfl⟩ := Option.map_eq_some_iff.1 hnext
      exact ⟨n, hs.under hmem hn, rfl⟩
  · rintro ⟨s, hs, rfl⟩
    induction hs with
    | top => exact .top
    | under _ hb hnext ih =>
      refine ih.under (mem_ordered.2 ⟨_, hb, rfl⟩) ?_
      rw [Branch.ordered, hnext]
      rfl

/-! ## The steps of a run -/

/-- What a level that follows a literal paints, if there is one. -/
def runNext (o : Option KeywordTree) (ignoreCase : Bool) (line : Text) (cursor : Nat) : List Span × Nat :=
  o.elim ([], cursor) fun t => t.run ignoreCase line cursor

theorem run_of_find_none (h : t.find ignoreCase line cursor = none) :
    t.run ignoreCase line cursor = ([], cursor) := by
  rw [run]
  split
  · rfl
  · next hfind =>
    rw [h] at hfind
    cases hfind

theorem le_runNext (o : Option KeywordTree) (ignoreCase : Bool) (line : Text) (cursor : Nat) :
    cursor ≤ (runNext o ignoreCase line cursor).2 := by
  cases o with
  | none => exact Nat.le_refl _
  | some t => exact (t.run_inside ignoreCase line cursor).2

theorem run_of_find_some {hit : Hit} (h : t.find ignoreCase line cursor = some hit) :
    t.run ignoreCase line cursor =
      let below := runNext hit.branch.next ignoreCase line hit.stop
      let others := t.run ignoreCase line below.2
      if t.anywhere then (⟨t.colour, hit.start, hit.stop⟩ :: below.1 ++ others.1, others.2)
      else (⟨t.colour, hit.start, hit.stop⟩ :: below.1, below.2) := by
  have hle := le_runNext hit.branch.next ignoreCase line hit.stop
  rw [run]
  split
  · next hfind =>
    rw [h] at hfind
    cases hfind
  · next found hfind =>
    obtain rfl : found = hit := Option.some.inj (hfind.symm.trans h)
    split
    next below after heq =>
    have hbelow : runNext found.branch.next ignoreCase line found.stop = (below, after) := by
      rw [← heq]
      split
      · next n hn => rw [hn]; rfl
      · next hn => rw [hn]; rfl
    rw [hbelow] at hle ⊢
    rw [Nat.max_eq_right hle]

theorem run_once {hit : Hit} {below : List Span} {after : Nat} (hany : t.anywhere = false)
    (h : t.find ignoreCase line cursor = some hit)
    (hbelow : runNext hit.branch.next ignoreCase line hit.stop = (below, after)) :
    t.run ignoreCase line cursor = (⟨t.colour, hit.start, hit.stop⟩ :: below, after) := by
  rw [run_of_find_some h, hbelow, hany]
  rfl

theorem run_again {hit : Hit} {below others : List Span} {after last : Nat} (hany : t.anywhere = true)
    (h : t.find ignoreCase line cursor = some hit)
    (hbelow : runNext hit.branch.next ignoreCase line hit.stop = (below, after))
    (hothers : t.run ignoreCase line after = (others, last)) :
    t.run ignoreCase line cursor = (⟨t.colour, hit.start, hit.stop⟩ :: below ++ others, last) := by
  rw [run_of_find_some h, hbelow, hany]
  show (_ :: below ++ (t.run ignoreCase line after).1, _) = _
  rw [hothers]

/-- What a level paints from the cursor on, and where it leaves the cursor, said of the tree as written. -/
inductive Matches (ignoreCase : Bool) (line : Text) : Option KeywordTree → Nat → List Span → Nat → Prop
  /-- nothing follows the literal -/
  | leaf {cursor : Nat} : Matches ignoreCase line none cursor [] cursor
  /-- the level reaches no literal of its own -/
  | missed {t : KeywordTree} {cursor : Nat} (hmisses : t.Misses ignoreCase line cursor) :
      Matches ignoreCase line (some t) cursor [] cursor
  /-- the level takes a literal, and the level behind it goes on -/
  | once {t : KeywordTree} {b : Branch} {cursor p stop after : Nat} {below : List Span}
      (hany : t.anywhere = false) (htakes : t.Takes ignoreCase line cursor p stop b)
      (hbelow : Matches ignoreCase line b.next stop below after) :
      Matches ignoreCase line (some t) cursor (⟨t.colour, p, stop⟩ :: below) after
  /-- after that, a level that matches anywhere starts over -/
  | again {t : KeywordTree} {b : Branch} {cursor p stop after last : Nat} {below others : List Span}
      (hany : t.anywhere = true) (htakes : t.Takes ignoreCase line cursor p stop b)
      (hbelow : Matches ignoreCase line b.next stop below after)
      (hothers : Matches ignoreCase line (some t) after others last) :
      Matches ignoreCase line (some t) cursor (⟨t.colour, p, stop⟩ :: below ++ others) last

/-- **A tree paints a line in one way.** -/
theorem Matches.eq {o : Option KeywordTree} {spans spans' : List Span} {last last' : Nat}
    (h : Matches ignoreCase line o cursor spans last) (h' : Matches ignoreCase line o cursor spans' last') :
    spans = spans' ∧ last = last' := by
  induction h generalizing spans' last' with
  | leaf =>
    cases h'
    exact ⟨rfl, rfl⟩
  | missed hmisses =>
    cases h' with
    | missed _ => exact ⟨rfl, rfl⟩
    | once _ htakes _ => exact absurd hmisses htakes.not_misses
    | again _ htakes _ _ => exact absurd hmisses htakes.not_misses
  | once hany htakes _ ih =>
    cases h' with
    | missed hmisses => exact absurd hmisses htakes.not_misses
    | once _ htakes' hbelow' =>
      obtain ⟨rfl, rfl, rfl⟩ := htakes.eq htakes'
      obtain ⟨rfl, rfl⟩ := ih hbelow'
      exact ⟨rfl, rfl⟩
    | again hany' _ _ _ => exact absurd (hany.symm.trans hany') Bool.false_ne_true
  | again hany htakes _ _ ihbelow ihothers =>
    cases h' with
    | missed hmisses => exact absurd hmisses htakes.not_misses
    | once hany' _ _ => exact absurd (hany'.symm.trans hany) Bool.false_ne_true
    | again _ htakes' hbelow' hothers' =>
      obtain ⟨rfl, rfl, rfl⟩ := htakes.eq htakes'
      obtain ⟨rfl, rfl⟩ := ihbelow hbelow'
      obtain ⟨rfl, rfl⟩ := ihothers hothers'
      exact ⟨rfl, rfl⟩

/-- **A run goes through the steps of the tree as written**, if siblings can be told apart on every level. -/
theorem matches_run (t : KeywordTree) (line : Text) (cursor : Nat) (h : ∀ s, t.Level s → s.TellsApart ignoreCase) :
    Matches ignoreCase line (some t) cursor (t.ordered.run ignoreCase line cursor).1
      (t.ordered.run ignoreCase line cursor).2 := by
  have htop := h t .top
  cases hfind : t.ordered.find ignoreCase line cursor with
  | none =>
    rw [run_of_find_none hfind]
    exact .missed ((find_eq_none_iff htop).1 hfind)
  | some hit =>
    obtain ⟨b, htakes, hbranch⟩ := takes_of_find htop hfind
    obtain ⟨-, hlt, hle⟩ := find_within hfind
    have hbelow : Matches ignoreCase line b.next hit.stop
        (runNext hit.branch.next ignoreCase line hit.stop).1 (runNext hit.branch.next ignoreCase line hit.stop).2 := by
      rw [hbranch, Branch.ordered]
      cases hnext : b.next with
      | none => exact .leaf
      | some n =>
        have hfewer := Branches.count_lt_of_mem htakes.mem hnext
        exact matches_run n line hit.stop fun s hs => h s ((Level.top.under htakes.mem hnext).trans hs)
    have hafter := le_runNext hit.branch.next ignoreCase line hit.stop
    cases hany : t.anywhere with
    | false =>
      rw [run_once (t := t.ordered) hany hfind rfl]
      exact .once hany htakes hbelow
    | true =>
      rw [run_again (t := t.ordered) hany hfind rfl rfl]
      exact .again hany htakes hbelow (matches_run t line _ h)
termination_by (t.children.count, line.size - cursor)
decreasing_by
  · exact Prod.Lex.left _ _ hfewer
  · exact Prod.Lex.right _ (by omega)

/-- **What a run paints is what the tree as written says.** -/
theorem run_eq_iff (h : ∀ s, t.Level s → s.TellsApart ignoreCase) {spans : List Span} {last : Nat} :
    t.ordered.run ignoreCase line cursor = (spans, last) ↔ Matches ignoreCase line (some t) cursor spans last := by
  have hrun := matches_run t line cursor h
  constructor
  · intro heq
    rwa [heq] at hrun
  · intro hmatches
    obtain ⟨hspans, hlast⟩ := hrun.eq hmatches
    exact Prod.ext hspans hlast

/-! ## The spans of a run -/

theorem Reaches.le {p stop : Nat} {l : Text} (h : t.Reaches ignoreCase line cursor p stop l) :
    cursor ≤ p ∧ p ≤ stop := by
  obtain ⟨gone, skipped, w, after, -, -, rfl, rfl, -, -⟩ := h
  exact ⟨Nat.le_add_right .., Nat.le_add_right ..⟩

/-- Whether a list of spans goes from left to right between two offsets. -/
structure Ascends (a b : Nat) (spans : List Span) : Prop where
  le : a ≤ b
  between : ∀ s ∈ spans, a ≤ s.start ∧ s.stop ≤ b
  apart : spans.Pairwise fun s s' => s.stop ≤ s'.start

theorem Ascends.nil (a : Nat) : Ascends a a [] := ⟨Nat.le_refl a, nofun, List.Pairwise.nil⟩

theorem Ascends.append {a b c : Nat} {spans spans' : List Span} (h : Ascends a b spans) (h' : Ascends b c spans') :
    Ascends a c (spans ++ spans') := by
  refine ⟨Nat.le_trans h.le h'.le, ?_, ?_⟩
  · intro s hs
    rcases List.mem_append.1 hs with hs | hs
    · exact ⟨(h.between s hs).1, Nat.le_trans (h.between s hs).2 h'.le⟩
    · exact ⟨Nat.le_trans h.le (h'.between s hs).1, (h'.between s hs).2⟩
  · rw [List.pairwise_append]
    exact ⟨h.apart, h'.apart, fun s hs s' hs' => Nat.le_trans (h.between s hs).2 (h'.between s' hs').1⟩

theorem Takes.ascends {p stop : Nat} {b : Branch} (h : t.Takes ignoreCase line cursor p stop b) :
    Ascends cursor stop [⟨t.colour, p, stop⟩] := by
  obtain ⟨hcursor, hstop⟩ := h.reaches.le
  refine ⟨Nat.le_trans hcursor hstop, ?_, List.pairwise_singleton ..⟩
  intro s hs
  obtain rfl := List.mem_singleton.1 hs
  exact ⟨hcursor, Nat.le_refl _⟩

/-- **Every step of a run goes on where the step before it ended.** -/
theorem Matches.ascends {o : Option KeywordTree} {spans : List Span} {last : Nat}
    (h : Matches ignoreCase line o cursor spans last) : Ascends cursor last spans := by
  induction h with
  | leaf => exact .nil _
  | missed _ => exact .nil _
  | once _ htakes _ ih => exact htakes.ascends.append ih
  | again _ htakes _ _ ihbelow ihothers => exact (htakes.ascends.append ihbelow).append ihothers

/-- Spans that are not empty and go from left to right are no more than the text is long. -/
theorem length_le_of_ascends {spans : List Span} {a b n : Nat} (h : Ascends a b spans)
    (hinside : ∀ s ∈ spans, s.Inside a n) : spans.length ≤ n - a := by
  induction spans generalizing a with
  | nil => exact Nat.zero_le _
  | cons s spans ih =>
    have hs := hinside s (List.mem_cons_self ..)
    have hafter : ∀ s' ∈ spans, s.stop ≤ s'.start := fun s' hs' => List.rel_of_pairwise_cons h.apart hs'
    have hrest : Ascends s.stop b spans :=
      ⟨(h.between s (List.mem_cons_self ..)).2,
        fun s' hs' => ⟨hafter s' hs', (h.between s' (List.mem_cons_of_mem _ hs')).2⟩,
        List.Pairwise.of_cons h.apart⟩
    have hlen := ih hrest fun s' hs' =>
      have hin := hinside s' (List.mem_cons_of_mem _ hs')
      ⟨hafter s' hs', hin.start_lt, hin.stop_le⟩
    obtain ⟨hle, hlt, hstop⟩ := hs
    rw [List.length_cons]
    omega

end KeywordTree

/-! ## Compiled trees -/

theorem Matcher.compile_eq_ok {t : KeywordTree} {m : Matcher} (h : compile t ignoreCase = .ok m) :
    t.children.check ignoreCase [] = .ok () ∧ m = ⟨t.ordered, ignoreCase⟩ := by
  unfold compile at h
  cases hcheck : t.children.check ignoreCase [] with
  | error e =>
    rw [hcheck] at h
    cases h
  | ok u =>
    rw [hcheck] at h
    exact ⟨rfl, (Except.ok.inj h).symm⟩

/-- Every level of a tree that compiles tells its siblings apart. -/
theorem Matcher.tellsApart_of_compile {t : KeywordTree} {m : Matcher} (h : compile t ignoreCase = .ok m)
    (hascii : ignoreCase = true → t.children.ascii) {s : KeywordTree} (hs : t.Level s) :
    s.TellsApart ignoreCase :=
  KeywordTree.tellsApart_of_check (hs.check (compile_eq_ok h).1) fun hic => hs.ascii (hascii hic)

/-- A text without line breaks and carriage returns is painted as one line. -/
theorem Matcher.paint_row (m : Matcher) {t : Text} (hbreak : '\n' ∉ t) (hreturn : '\r' ∉ t) :
    m.paint t 0 t.size = (m.tree.run m.ignoreCase t 0).1 := by
  have hone : t.rowsFrom 0 = [(0, t)] := Text.rowsFrom_noBreak (fun c hc h => hbreak (h ▸ hc)) 0
  have htrim : Text.trimRow t = t := by
    obtain ⟨ending, heq, hending⟩ := Text.trimRow_append t
    cases ending with
    | nil =>
      rw [List.append_nil] at heq
      exact heq.symm
    | cons c cs =>
      obtain rfl := hending c (List.mem_cons_self ..)
      refine absurd ?_ hreturn
      rw [heq]
      exact List.mem_append_right _ (List.mem_cons_self ..)
  have hrow : m.paintRow 0 t = (m.tree.run m.ignoreCase t 0).1 := by
    have hshift : Span.shift 0 = id := by
      funext s
      simp [Span.shift]
    rw [paintRow, hshift, List.map_id]
  have hall : m.paint t 0 t.size = (m.paintRow 0 t).filter fun s => 0 ≤ s.start && s.stop ≤ t.size := by
    rw [paint, Text.rowsIn_all, hone, List.map_singleton, htrim, List.flatMap_singleton]
  rw [hall, List.filter_eq_self.2, hrow]
  intro s hs
  have hinside := m.paintRow_inside 0 t s hs
  simpa using hinside.stop_le

/-- **A matcher takes the leftmost longest literals.**  On every level of a tree that compiles, with ASCII
    literals if case is ignored, what is found is what the level as written takes, and nothing is found only
    where none of its literals can be reached.  So a run paints what the tree as written says: spans that are
    not empty and go from left to right, no more of them than the rest of the line is long. -/
theorem Matcher.takes_leftmost_longest {t : KeywordTree} {m : Matcher} (hm : compile t ignoreCase = .ok m)
    (hascii : ignoreCase = true → t.children.ascii) (line : Text) :
    m = ⟨t.ordered, ignoreCase⟩ ∧
    (∀ s', m.tree.Level s' ↔ ∃ s, t.Level s ∧ s.ordered = s') ∧
    (∀ s, t.Level s → ∀ cursor,
      (∀ hit, s.ordered.find ignoreCase line cursor = some hit ↔
        ∃ b, s.Takes ignoreCase line cursor hit.start hit.stop b ∧ hit.branch = b.ordered) ∧
      (s.ordered.find ignoreCase line cursor = none ↔ s.Misses ignoreCase line cursor)) ∧
    ∀ cursor spans last,
      (m.tree.run m.ignoreCase line cursor = (spans, last) ↔
        KeywordTree.Matches ignoreCase line (some t) cursor spans last) ∧
      (m.tree.run m.ignoreCase line cursor = (spans, last) →
        (∀ s ∈ spans, s.Inside cursor line.size) ∧ (spans.Pairwise fun s s' => s.stop ≤ s'.start) ∧
        spans.length ≤ line.size - cursor) := by
  have hapart : ∀ s, t.Level s → s.TellsApart ignoreCase := fun s hs => tellsApart_of_compile hm hascii hs
  obtain ⟨-, rfl⟩ := compile_eq_ok hm
  refine ⟨rfl, fun s' => KeywordTree.level_ordered, ?_, ?_⟩
  · intro s hs cursor
    exact ⟨fun hit => KeywordTree.find_eq_some_iff (hapart s hs), KeywordTree.find_eq_none_iff (hapart s hs)⟩
  · intro cursor spans last
    have hiff : t.ordered.run ignoreCase line cursor = (spans, last) ↔ _ := KeywordTree.run_eq_iff hapart
    refine ⟨hiff, fun hrun => ?_⟩
    have hinside := (t.ordered.run_inside ignoreCase line cursor).1
    have hascends := (hiff.1 hrun).ascends
    rw [hrun] at hinside
    exact ⟨hinside, hascends.apart, KeywordTree.length_le_of_ascends hascends hinside⟩

/-- Words that may follow a comparison, one the front of the other. -/
def negations : KeywordTree := ⟨.type, false, .leaf "not".toList (.leaf "no".toList .nil)⟩

/-- Words and operators, one of them the front of another. -/
def comparisons : KeywordTree := (KeywordTree.ofWords .keyword true ["<", "<="]).nest "is" negations

/-- Words that are taken whatever their case, and a longer operator before a shorter one. -/
theorem comparisons_matches : ∃ m, Matcher.compile comparisons true = .ok m ∧ comparisons.children.ascii ∧
    KeywordTree.Matches true "IS  Not <= x".toList (some comparisons) 0
      [⟨.keyword, 0, 2⟩, ⟨.type, 4, 7⟩, ⟨.keyword, 8, 10⟩] 10 := by
  have hm : Matcher.compile comparisons true = .ok ⟨comparisons.ordered, true⟩ := rfl
  have hascii : comparisons.children.ascii := by decide
  have h := Matcher.takes_leftmost_longest hm (fun _ => hascii) "IS  Not <= x".toList
  have his : comparisons.ordered.find true "IS  Not <= x".toList 0 =
      some ⟨0, 2, ⟨"is".toList, some negations⟩⟩ := rfl
  have hnot : negations.find true "IS  Not <= x".toList 2 = some ⟨4, 7, ⟨"not".toList, none⟩⟩ := rfl
  have hle : comparisons.ordered.find true "IS  Not <= x".toList 7 = some ⟨8, 10, ⟨"<=".toList, none⟩⟩ := rfl
  have hrest : comparisons.ordered.find true "IS  Not <= x".toList 10 = none := rfl
  have hrun := KeywordTree.run_again rfl his (KeywordTree.run_once rfl hnot rfl)
    (KeywordTree.run_again rfl hle rfl (KeywordTree.run_of_find_none hrest))
  exact ⟨_, hm, hascii, (h.2.2.2 0 _ 10).1.1 hrun⟩

end BlockScript
