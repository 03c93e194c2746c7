/-
  Sets of characters, and maps between characters, given by ranges of code points.

  A property of the character standard is a few hundred ranges.  `CharSet` keeps the ascending code
  points at which membership flips: a character belongs when an odd number of them is at or below it.
  `CharMap` keeps arithmetic runs, because letters of one alphabet come in such runs (`A`..`Z` to
  `a`..`z`, or every second code point to its successor).
-/
namespace BlockScript

/-- A set of characters: the ascending code points at which membership flips, starting outside. -/
structure CharSet where
  bounds : List Nat

namespace CharSet

/-- Walks the flips at or below `n`; `inside` is the membership reached so far. -/
def side (n : Nat) : List Nat → Bool → Bool
  | [], inside => inside
  | b :: bs, inside => if n < b then inside else side n bs (!inside)

/-- Whether the character belongs to the set. -/
def contains (s : CharSet) (c : Char) : Bool := side c.toNat s.bounds false

end CharSet

/-- Every `step`-th code point from `first` to `last`, sent to the code points from `target` on, in
    the same steps. -/
structure CharRun where
  first : Nat
  last : Nat
  step : Nat
  target : Nat

namespace CharRun

/-- Whether the run moves the code point `n`. -/
def moves (r : CharRun) (n : Nat) : Bool :=
  r.first ≤ n && n ≤ r.last && (n - r.first) % r.step == 0

/-- Whether the code points that the run sends characters to are characters. -/
def hasImages (r : CharRun) : Bool :=
  r.target + (r.last - r.first) < 0xD800 ||
    0xDFFF < r.target && r.target + (r.last - r.first) < 0x110000

/-- Whether `s` moves nothing that `r` sends something to: they lie apart, `r` has one image, which `s`
    does not move, or both take every second code point, but not the same ones. -/
def sparesImages (s r : CharRun) : Bool :=
  Nat.blt s.last r.target || Nat.blt (r.target + (r.last - r.first)) s.first ||
    (r.first == r.last && !s.moves r.target) ||
    (s.step == 2 && r.step == 2 && (r.target + s.first) % 2 == 1)

theorem moves_iff {r : CharRun} {n : Nat} :
    r.moves n ↔ r.first ≤ n ∧ n ≤ r.last ∧ (n - r.first) % r.step = 0 := by
  simp [moves, and_assoc]

/-- What `r` sends something to stays, if it is spared. -/
theorem not_moves_image {s r : CharRun} (h : s.sparesImages r) {n : Nat} (hn : r.moves n) :
    ¬s.moves (r.target + (n - r.first)) := by
  obtain ⟨hfirst, hlast, hstep⟩ := moves_iff.1 hn
  simp only [sparesImages, Bool.or_eq_true, Bool.and_eq_true, Nat.blt_eq, beq_iff_eq, Bool.not_eq_true'] at h
  intro himage
  rcases h with ((h | h) | ⟨hone, hspared⟩) | ⟨⟨hs, hr⟩, hodd⟩
  · have := (moves_iff.1 himage).2.1
    omega
  · have := (moves_iff.1 himage).1
    omega
  · obtain rfl : n = r.first := by omega
    rw [Nat.sub_self, Nat.add_zero, hspared] at himage
    cases himage
  · obtain ⟨hle, -, hmod⟩ := moves_iff.1 himage
    rw [hs] at hmod
    rw [hr] at hstep
    omega

end CharRun

/-- A map on characters: the first run that moves a character gives its image, the rest stay. -/
structure CharMap where
  runs : List CharRun

namespace CharMap

/-- The image of a character. -/
def apply (m : CharMap) (c : Char) : Char :=
  match m.runs.find? (·.moves c.toNat) with
  | some r => Char.ofNat (r.target + (c.toNat - r.first))
  | none => c

/-- A map whose runs spare all images changes no character twice. -/
theorem apply_apply {m : CharMap}
    (h : ∀ r ∈ m.runs, r.hasImages ∧ ∀ s ∈ m.runs, s.sparesImages r) (c : Char) :
    m.apply (m.apply c) = m.apply c := by
  cases hfind : m.runs.find? (·.moves c.toNat) with
  | none =>
    have hstays : m.apply c = c := by rw [apply, hfind]
    rw [hstays, hstays]
  | some r =>
    have himage : m.apply c = Char.ofNat (r.target + (c.toNat - r.first)) := by rw [apply, hfind]
    obtain ⟨hvalid, hspared⟩ := h r (List.mem_of_find?_eq_some hfind)
    have hmoves : r.moves c.toNat := List.find?_some (p := fun r : CharRun => r.moves c.toNat) hfind
    obtain ⟨hfirst, hlast, -⟩ := CharRun.moves_iff.1 hmoves
    have hchar : (r.target + (c.toNat - r.first)).isValidChar := by
      simp only [CharRun.hasImages, Bool.or_eq_true, Bool.and_eq_true, decide_eq_true_eq] at hvalid
      rcases hvalid with hvalid | ⟨hlow, hhigh⟩
      · exact .inl (by omega)
      · exact .inr ⟨by omega, by omega⟩
    have htoNat : (m.apply c).toNat = r.target + (c.toNat - r.first) := by
      rw [himage, Char.ofNat, dif_pos hchar]
      rfl
    have hnone : m.runs.find? (·.moves (m.apply c).toNat) = none := by
      rw [List.find?_eq_none, htoNat]
      exact fun s hs => CharRun.not_moves_image (hspared s hs) hmoves
    rw [apply, hnone]

end CharMap

end BlockScript
