/-
  Searches over words of brackets.

  The search for the closer of an opener and the search for the opener of a closer are one search: `seek`
  runs over a word of openers and closers with a stack of what has been opened since, and the search
  backward is `seek` over the mirrored word with the two sides of the relation `fits` exchanged.  Nothing
  is assumed of that relation or of the word, which need not be nested.

  1. **A pass from behind** (`waiting`) tells which closers wait after a word; an opener takes the first
     one it fits, together with those in front of it (`settle`).
  2. **What is found finds something back** (`seek_back`).  If the search from `o` finds `c`, then `o` fits
     nothing but `c` among the closers that wait for it (`waiting_only`), so the search back from `c` ends
     at `o` or before it gets there.
  3. **Without crossing it finds the same back** (`seek_back_iff`).  As long as no opener that a closer
     passes over fits a later one (`crossing`), the search from `o` may be run over the closers that wait
     for it instead of the word (`seek_waiting`), and there it does what the search back does.
-/
import BlockScript.Proofs.NamePairs
import Mathlib.Data.List.Induction

namespace BlockScript

/-! ## Words -/

/-- A token in the part it plays in a script. -/
inductive Bracket where
  | opener (t : Token)
  | closer (t : Token)
  deriving DecidableEq

/-- The bracket seen from the other side. -/
def Bracket.turned : Bracket → Bracket
  | .opener t => .closer t
  | .closer t => .opener t

theorem Bracket.turned_turned (x : Bracket) : x.turned.turned = x := by cases x <;> rfl

/-- The word seen from the other side. -/
def mirror (w : List Bracket) : List Bracket := (w.map Bracket.turned).reverse

theorem mirror_mirror (w : List Bracket) : mirror (mirror w) = w := by
  simp [mirror, Function.comp_def, Bracket.turned_turned]

theorem mirror_append (v w : List Bracket) : mirror (v ++ w) = mirror w ++ mirror v := by
  simp [mirror]

theorem mirror_cons (x : Bracket) (w : List Bracket) : mirror (x :: w) = mirror w ++ [x.turned] := by
  simp [mirror]

theorem mem_mirror {x : Bracket} {w : List Bracket} : x ∈ mirror w ↔ x.turned ∈ w := by
  rw [mirror, List.mem_reverse, List.mem_map]
  constructor
  · rintro ⟨y, hy, rfl⟩
    rwa [Bracket.turned_turned]
  · intro hx
    exact ⟨x.turned, hx, x.turned_turned⟩

/-- The search for what closes `o`, while the openers `above` have been opened since. -/
def seek (fits : Token → Token → Bool) (o : Token) (above : List Token) : List Bracket → Option Token
  | [] => none
  | .opener t :: w => seek fits o (t :: above) w
  | .closer t :: w =>
    match popFirst (fits · t) above with
    | some (_, rest) => seek fits o rest w
    | none => if fits o t then some t else seek fits o above w

/-- The closers left when `o` has taken the first one it fits. -/
def settle (fits : Token → Token → Bool) (o : Token) (ps : List Token) : List Token :=
  match popFirst (fits o) ps with
  | some (_, rest) => rest
  | none => ps

/-- The closers that wait in front of a word, when `ps` wait behind it. -/
def waiting (fits : Token → Token → Bool) (ps : List Token) : List Bracket → List Token
  | [] => ps
  | .opener t :: w => settle fits t (waiting fits ps w)
  | .closer t :: w => t :: waiting fits ps w

/-- Whether `z` fits a closer of the word. -/
def fitsLater (fits : Token → Token → Bool) (z : Token) (w : List Bracket) : Bool :=
  w.any fun
    | .opener _ => false
    | .closer e => fits z e

/-- Whether constructs cross on the search for what closes `o`: a closer goes to an opener from below some
    others, and one of these fits a later closer. -/
def crossing (fits : Token → Token → Bool) (o : Token) (above : List Token) : List Bracket → Bool
  | [] => false
  | .opener t :: w => crossing fits o (t :: above) w
  | .closer t :: w =>
    match popFirst (fits · t) above with
    | some (_, rest) =>
      (above.takeWhile (!fits · t)).any (fitsLater fits · w) || crossing fits o rest w
    | none => if fits o t then above.any (fitsLater fits · w) else crossing fits o above w

theorem popFirst_eq_none_iff {f : Token → Bool} {ts : List Token} :
    popFirst f ts = none ↔ ∀ t ∈ ts, ¬f t := by
  induction ts with
  | nil => simp [popFirst]
  | cons t ts ih =>
    rw [popFirst]
    split
    · next h => simp [h]
    · next h => simp [ih, h]

/-- What is taken stands behind those that do not satisfy `f`. -/
theorem popFirst_front {f : Token → Bool} {ts rest : List Token} {x : Token}
    (h : popFirst f ts = some (x, rest)) :
    f x ∧ ∃ front, ts = front ++ x :: rest ∧ ∀ y ∈ front, ¬f y := by
  induction ts with
  | nil => cases h
  | cons t ts ih =>
    rw [popFirst] at h
    split at h
    · next ht =>
      cases h
      exact ⟨ht, [], rfl, by simp⟩
    · next ht =>
      obtain ⟨hx, front, rfl, hfront⟩ := ih h
      exact ⟨hx, t :: front, rfl, by simpa [ht] using hfront⟩

variable {fits : Token → Token → Bool} {o c t z : Token} {above rest ps : List Token} {w : List Bracket}

/-! ## Steps of the search -/

theorem seek_takes (h : popFirst (fits · t) above = some (z, rest)) :
    seek fits o above (.closer t :: w) = seek fits o rest w := by
  rw [seek, h]

theorem seek_finds (h : popFirst (fits · t) above = none) (ho : fits o t) :
    seek fits o above (.closer t :: w) = some t := by
  rw [seek, h]
  exact if_pos ho

theorem seek_skips (h : popFirst (fits · t) above = none) (ho : ¬fits o t) :
    seek fits o above (.closer t :: w) = seek fits o above w := by
  rw [seek, h]
  exact if_neg ho

-- the same steps of a search back, where the openers met are those that take

theorem seek_flip_takes (h : popFirst (fits t) above = some (z, rest)) :
    seek (flip fits) c above (.closer t :: w) = seek (flip fits) c rest w :=
  seek_takes h

theorem seek_flip_finds (h : popFirst (fits t) above = none) (hc : fits t c) :
    seek (flip fits) c above (.closer t :: w) = some t :=
  seek_finds h hc

theorem seek_flip_skips (h : popFirst (fits t) above = none) (hc : ¬fits t c) :
    seek (flip fits) c above (.closer t :: w) = seek (flip fits) c above w :=
  seek_skips h hc

/-- What is found is a closer of the word, and one that `o` fits. -/
theorem seek_some (h : seek fits o above w = some c) : Bracket.closer c ∈ w ∧ fits o c := by
  induction w generalizing above with
  | nil => cases h
  | cons x w ih =>
    cases x with
    | opener t => exact (ih h).imp_left (List.mem_cons_of_mem _)
    | closer t =>
      rw [seek] at h
      split at h
      · exact (ih h).imp_left (List.mem_cons_of_mem _)
      · split at h
        · next ho =>
          cases h
          exact ⟨List.mem_cons_self .., ho⟩
        · exact (ih h).imp_left (List.mem_cons_of_mem _)

/-- What follows the closer that is found does not matter. -/
theorem seek_append (h : seek fits o above w = some c) (v : List Bracket) :
    seek fits o above (w ++ v) = some c := by
  induction w generalizing above with
  | nil => cases h
  | cons x w ih =>
    cases x with
    | opener t => exact ih h
    | closer t =>
      rw [seek] at h
      rw [List.cons_append]
      split at h
      · next hpop => rw [seek_takes hpop, ih h]
      · next hpop =>
        split at h
        · next ho => rw [seek_finds hpop ho, h]
        · next ho => rw [seek_skips hpop ho, ih h]

/-- The search ends at the closer that is found. -/
theorem seek_split (h : seek fits o above w = some c) :
    ∃ u v, w = u ++ .closer c :: v ∧ seek fits o above (u ++ [.closer c]) = some c := by
  induction w generalizing above with
  | nil => cases h
  | cons x w ih =>
    cases x with
    | opener t =>
      obtain ⟨u, v, rfl, hu⟩ := ih h
      exact ⟨.opener t :: u, v, rfl, hu⟩
    | closer t =>
      rw [seek] at h
      split at h
      · next hpop =>
        obtain ⟨u, v, rfl, hu⟩ := ih h
        exact ⟨.closer t :: u, v, rfl, by rw [List.cons_append, seek_takes hpop, hu]⟩
      · next hpop =>
        split at h
        · next ho =>
          cases h
          exact ⟨[], w, rfl, seek_finds hpop ho⟩
        · next ho =>
          obtain ⟨u, v, rfl, hu⟩ := ih h
          exact ⟨.closer t :: u, v, rfl, by rw [List.cons_append, seek_skips hpop ho, hu]⟩

/-- Over closers alone the search finds the first that `o` fits. -/
theorem seek_closers (ps : List Token) : seek fits o [] (ps.map .closer) = ps.find? (fits o) := by
  induction ps with
  | nil => rfl
  | cons p ps ih =>
    rw [List.map_cons]
    by_cases hp : fits o p
    · rw [seek_finds rfl hp, List.find?_cons_of_pos hp]
    · rw [seek_skips rfl hp, List.find?_cons_of_neg hp, ih]

/-! ## Closers that wait -/

theorem settle_takes (h : popFirst (fits o) ps = some (z, rest)) : settle fits o ps = rest := by
  rw [settle, h]

theorem settle_leaves (h : popFirst (fits o) ps = none) : settle fits o ps = ps := by
  rw [settle, h]

theorem settle_suffix (o : Token) (ps : List Token) : settle fits o ps <:+ ps := by
  cases h : popFirst (fits o) ps with
  | none =>
    simp only [settle_leaves h, List.suffix_rfl]
  | some r =>
    obtain ⟨-, front, hps⟩ := popFirst_split h
    rw [settle_takes h]
    exact ⟨front ++ [r.1], by simp [hps]⟩

/-- Where fewer closers wait, fewer are left. -/
theorem settle_mono {qs : List Token} (h : qs <:+ ps) : settle fits o qs <:+ settle fits o ps := by
  obtain ⟨front, rfl⟩ := h
  have happ := popFirst_append (fits o) front qs
  cases hfront : popFirst (fits o) front with
  | some r =>
    rw [hfront, Option.map_some, Option.some_or] at happ
    rw [settle_takes happ]
    exact (settle_suffix o qs).trans (List.suffix_append ..)
  | none =>
    rw [hfront, Option.map_none, Option.none_or] at happ
    cases hqs : popFirst (fits o) qs with
    | some r =>
      simp only [settle_takes hqs, settle_takes (happ.trans hqs), List.suffix_rfl]
    | none =>
      rw [settle_leaves hqs, settle_leaves (happ.trans hqs)]
      exact List.suffix_append ..

/-- The closers left when all of some openers, the nearest first, have taken theirs. -/
def settleAll (fits : Token → Token → Bool) (above ps : List Token) : List Token :=
  above.foldl (fun ps a => settle fits a ps) ps

theorem settleAll_append (front above ps : List Token) :
    settleAll fits (front ++ above) ps = settleAll fits above (settleAll fits front ps) :=
  List.foldl_append

theorem settleAll_suffix (above ps : List Token) : settleAll fits above ps <:+ ps := by
  induction above generalizing ps with
  | nil => exact List.suffix_rfl
  | cons a above ih => exact (ih _).trans (settle_suffix a ps)

theorem settleAll_mono {qs : List Token} (h : qs <:+ ps) (above : List Token) :
    settleAll fits above qs <:+ settleAll fits above ps := by
  induction above generalizing ps qs with
  | nil => exact h
  | cons a above ih => exact ih (settle_mono h)

/-- A closer that none of the openers fits is left on top, or is dropped and might as well not have
    been there. -/
theorem settleAll_cons {y : Token} (h : ∀ a ∈ above, ¬fits a y) (ps : List Token) :
    settleAll fits above (y :: ps) = y :: ps ∧ settleAll fits above ps = ps ∨
      settleAll fits above (y :: ps) = settleAll fits above ps := by
  induction above generalizing ps with
  | nil => exact .inl ⟨rfl, rfl⟩
  | cons a above ih =>
    have hpop := popFirst_cons_of_neg (h a (List.mem_cons_self ..)) ps
    show settleAll fits above (settle fits a (y :: ps)) = y :: ps ∧
      settleAll fits above (settle fits a ps) = ps ∨
        settleAll fits above (settle fits a (y :: ps)) = settleAll fits above (settle fits a ps)
    cases hps : popFirst (fits a) ps with
    | some r =>
      rw [settle_takes (hpop.trans hps), settle_takes hps]
      exact .inr rfl
    | none =>
      rw [settle_leaves (hpop.trans hps), settle_leaves hps]
      exact ih (fun a ha => h a (List.mem_cons_of_mem _ ha)) ps

theorem waiting_append (ps : List Token) (v w : List Bracket) :
    waiting fits ps (v ++ w) = waiting fits (waiting fits ps w) v := by
  induction v with
  | nil => rfl
  | cons x v ih => cases x <;> simp [waiting, ih]

/-- What waits has waited before or is a closer of the word. -/
theorem mem_waiting {y : Token} (h : y ∈ waiting fits ps w) : y ∈ ps ∨ Bracket.closer y ∈ w := by
  induction w with
  | nil => exact .inl h
  | cons x w ih =>
    cases x with
    | opener t => exact (ih ((settle_suffix t _).subset h)).imp_right (List.mem_cons_of_mem _)
    | closer t =>
      rcases List.mem_cons.1 h with rfl | h
      · exact .inr (List.mem_cons_self ..)
      · exact (ih h).imp_right (List.mem_cons_of_mem _)

/-! ## What is found finds something back -/

/-- **An opener fits nothing but its closer** among the closers that wait for it, once those opened since
    have taken theirs. -/
theorem waiting_only (h : seek fits o above (w ++ [.closer c]) = some c) (hc : Bracket.closer c ∉ w) :
    ∀ y ∈ settleAll fits above (waiting fits [c] w), fits o y → y = c := by
  induction w generalizing above with
  | nil =>
    intro y hy _
    exact List.mem_singleton.1 ((settleAll_suffix above [c]).subset hy)
  | cons x w ih =>
    have hw : Bracket.closer c ∉ w := fun hmem => hc (List.mem_cons_of_mem _ hmem)
    cases x with
    | opener t => exact ih h hw
    | closer t =>
      rw [List.cons_append] at h
      show ∀ y ∈ settleAll fits above (t :: waiting fits [c] w), fits o y → y = c
      cases hpop : popFirst (fits · t) above with
      | some r =>
        -- what those above the opener of `t` leave of the waiting closers, with `t` among them, is no
        -- more than what it leaves without
        obtain ⟨z, rest⟩ := r
        rw [seek_takes hpop] at h
        obtain ⟨hz, front, rfl, hfront⟩ := popFirst_front hpop
        have hsub : settle fits z (settleAll fits front (t :: waiting fits [c] w)) <:+
            waiting fits [c] w := by
          rcases settleAll_cons hfront (waiting fits [c] w) with ⟨heq, -⟩ | heq
          · simp only [heq, settle_takes (popFirst_cons_of_pos hz _), List.suffix_rfl]
          · rw [heq]
            exact (settle_suffix z _).trans (settleAll_suffix front _)
        intro y hy
        rw [settleAll_append] at hy
        exact ih h hw y ((settleAll_mono hsub rest).subset hy)
      | none =>
        by_cases ho : fits o t
        · rw [seek_finds hpop ho] at h
          cases h
          exact absurd (List.mem_cons_self ..) hc
        · rw [seek_skips hpop ho] at h
          intro y hy hfits
          rcases settleAll_cons (popFirst_eq_none_iff.1 hpop) (waiting fits [c] w) with ⟨heq, hsame⟩ | heq
          · rw [heq] at hy
            rcases List.mem_cons.1 hy with rfl | hy
            · exact absurd hfits ho
            · exact ih h hw y (by rwa [hsame]) hfits
          · exact ih h hw y (by rwa [← heq]) hfits

/-- **The search back over a word**, from `c` with the closers `bs` met since: an opener of the word takes
    `c`, or `c` is still the last of those that wait in front of it. -/
theorem seek_mirror (fits : Token → Token → Bool) (c : Token) (w : List Bracket) (bs : List Token) :
    (∃ t, Bracket.opener t ∈ w ∧ fits t c ∧ (∀ y ∈ waiting fits (bs ++ [c]) w, Bracket.closer y ∈ w) ∧
      ∀ v, seek (flip fits) c bs (mirror w ++ v) = some t) ∨
    (∃ bs', waiting fits (bs ++ [c]) w = bs' ++ [c] ∧ (∀ y ∈ bs', y ∈ bs ∨ Bracket.closer y ∈ w) ∧
      ∀ v, seek (flip fits) c bs (mirror w ++ v) = seek (flip fits) c bs' v) := by
  induction w using List.reverseRecOn generalizing bs with
  | nil => exact .inr ⟨bs, rfl, fun y hy => .inl hy, fun v => rfl⟩
  | append_singleton w x ih =>
    have hmem : ∀ {y}, y ∈ w → y ∈ w ++ [x] := fun hy => List.mem_append_left _ hy
    have hmirror : ∀ v, mirror (w ++ [x]) ++ v = x.turned :: (mirror w ++ v) := by
      intro v
      rw [mirror_append]
      rfl
    simp only [hmirror, waiting_append]
    cases x with
    | closer t =>
      rcases ih (t :: bs) with ⟨s, hs, hfits, hwait, hseek⟩ | ⟨bs', hwait, hbs, hseek⟩
      · exact .inl ⟨s, hmem hs, hfits, fun y hy => hmem (hwait y hy), hseek⟩
      · refine .inr ⟨bs', hwait, fun y hy => ?_, hseek⟩
        rcases hbs y hy with hy | hy
        · rcases List.mem_cons.1 hy with rfl | hy
          · exact .inr (List.mem_append_right _ (List.mem_singleton_self _))
          · exact .inl hy
        · exact .inr (hmem hy)
    | opener t =>
      have hback : waiting fits (bs ++ [c]) [.opener t] = settle fits t (bs ++ [c]) := rfl
      rw [hback]
      rcases popFirst_around (fits t) bs c with
        ⟨z, rest, hpop, htakes⟩ | ⟨hpop, hc, htakes⟩ | ⟨hpop, hc, hpasses⟩
      · obtain ⟨-, front, hsplit, -⟩ := popFirst_front hpop
        simp only [settle_takes (htakes []), Bracket.turned, seek_flip_takes hpop]
        rcases ih rest with ⟨s, hs, hfits, hwait, hseek⟩ | ⟨bs', hwait, hbs, hseek⟩
        · exact .inl ⟨s, hmem hs, hfits, fun y hy => hmem (hwait y hy), hseek⟩
        · refine .inr ⟨bs', hwait, fun y hy => ?_, hseek⟩
          rcases hbs y hy with hy | hy
          · exact .inl (by simp [hsplit, hy])
          · exact .inr (hmem hy)
      · -- here `c` is taken
        simp only [settle_takes (htakes []), Bracket.turned, seek_flip_finds hpop hc]
        refine .inl ⟨t, List.mem_append_right _ (List.mem_singleton_self _), hc, fun y hy => ?_,
          fun _ => rfl⟩
        exact hmem ((mem_waiting hy).resolve_left (by simp))
      · simp only [settle_leaves (hpasses []), Bracket.turned, seek_flip_skips hpop hc]
        rcases ih bs with ⟨s, hs, hfits, hwait, hseek⟩ | ⟨bs', hwait, hbs, hseek⟩
        · exact .inl ⟨s, hmem hs, hfits, fun y hy => hmem (hwait y hy), hseek⟩
        · exact .inr ⟨bs', hwait, fun y hy => (hbs y hy).imp_right hmem, hseek⟩

/-- **What is found finds something back.**  If the search from `o` over a word finds the closer behind it,
    the search back from there finds `o` or an opener of the word. -/
theorem seek_back (h : seek fits o [] (w ++ [.closer c]) = some c) (hc : Bracket.closer c ∉ w) :
    ∃ o', (o' = o ∨ Bracket.opener o' ∈ w) ∧ fits o' c ∧
      seek (flip fits) c [] (mirror w ++ [.closer o]) = some o' := by
  rcases seek_mirror fits c w [] with ⟨t, ht, hfits, -, hseek⟩ | ⟨bs, hwait, hbs, hseek⟩
  · exact ⟨t, .inr ht, hfits, hseek _⟩
  · have hfits := (seek_some h).2
    have hnone : popFirst (fits o) bs = none := by
      refine popFirst_eq_none_iff.2 fun y hy hy' => ?_
      have hmem : y ∈ waiting fits [c] w := by
        show y ∈ waiting fits ([] ++ [c]) w
        rw [hwait]
        exact List.mem_append_left _ hy
      obtain rfl := waiting_only h hc y hmem hy'
      exact hc ((hbs y hy).resolve_left (by simp))
    refine ⟨o, .inl rfl, hfits, ?_⟩
    rw [hseek, seek_flip_finds hnone hfits]

/-- The same from the other side. -/
theorem seek_ahead (h : seek (flip fits) c [] (mirror w ++ [.closer o]) = some o) (ho : Bracket.opener o ∉ w) :
    ∃ c', (c' = c ∨ Bracket.closer c' ∈ w) ∧ fits o c' ∧ seek fits o [] (w ++ [.closer c]) = some c' := by
  obtain ⟨c', hmem, hfits, hsearch⟩ := seek_back h fun hmem => ho (mem_mirror.1 hmem)
  rw [mirror_mirror] at hsearch
  exact ⟨c', hmem.imp_right mem_mirror.1, hfits, hsearch⟩

/-! ## Without crossing the same is found back -/

theorem fitsLater_iff : fitsLater fits z w = true ↔ ∃ e, Bracket.closer e ∈ w ∧ fits z e := by
  rw [fitsLater, List.any_eq_true]
  constructor
  · rintro ⟨x, hx, hfits⟩
    cases x with
    | opener t => cases hfits
    | closer e => exact ⟨e, hx, hfits⟩
  · rintro ⟨e, he, hfits⟩
    exact ⟨.closer e, he, hfits⟩

theorem fitsLater_mono {v : List Bracket} (h : ∀ e, Bracket.closer e ∈ v → Bracket.closer e ∈ w)
    (hz : fitsLater fits z w = false) : fitsLater fits z v = false := by
  rw [Bool.eq_false_iff] at hz ⊢
  intro hlater
  obtain ⟨e, he, hfits⟩ := fitsLater_iff.1 hlater
  exact hz (fitsLater_iff.2 ⟨e, h e he, hfits⟩)

/-- The openers that a closer passes over, none of which may fit a later one. -/
theorem crossing_takes (h : popFirst (fits · t) above = some (z, rest)) :
    crossing fits o above (.closer t :: w) = false ↔
      (∀ a ∈ above.takeWhile (!fits · t), fitsLater fits a w = false) ∧ crossing fits o rest w = false := by
  rw [crossing, h]
  simp only [Bool.or_eq_false_iff, List.any_eq_false, Bool.not_eq_true]

theorem crossing_finds (h : popFirst (fits · t) above = none) (ho : fits o t) :
    crossing fits o above (.closer t :: w) = false ↔ ∀ a ∈ above, fitsLater fits a w = false := by
  rw [crossing, h]
  simp only [ho, if_true, List.any_eq_false, Bool.not_eq_true]

theorem crossing_skips (h : popFirst (fits · t) above = none) (ho : ¬fits o t) :
    crossing fits o above (.closer t :: w) = false ↔ crossing fits o above w = false := by
  rw [crossing, h]
  simp [ho]

/-- An opener that fits none of the closers ahead might as well not be open. -/
theorem seek_unused (ht : ∀ y ∈ ps, ¬fits t y) (hx : crossing fits o (t :: above) (ps.map .closer) = false) :
    seek fits o (t :: above) (ps.map .closer) = seek fits o above (ps.map .closer) ∧
      crossing fits o above (ps.map .closer) = false := by
  induction ps with
  | nil => exact ⟨rfl, rfl⟩
  | cons y ps ih =>
    have hy := ht y (List.mem_cons_self ..)
    have hps : ∀ y ∈ ps, ¬fits t y := fun y hy => ht y (List.mem_cons_of_mem _ hy)
    have hpop : popFirst (fits · y) (t :: above) = popFirst (fits · y) above :=
      popFirst_cons_of_neg (f := (fits · y)) hy above
    rw [List.map_cons] at hx ⊢
    cases habove : popFirst (fits · y) above with
    | some r =>
      obtain ⟨hpass, hrest⟩ := (crossing_takes (hpop.trans habove)).1 hx
      refine ⟨by rw [seek_takes (hpop.trans habove), seek_takes habove],
        (crossing_takes habove).2 ⟨fun a ha => hpass a ?_, hrest⟩⟩
      rw [List.takeWhile_cons_of_pos (by simpa using hy)]
      exact List.mem_cons_of_mem _ ha
    | none =>
      by_cases ho : fits o y
      · refine ⟨by rw [seek_finds (hpop.trans habove) ho, seek_finds habove ho],
          (crossing_finds habove ho).2 fun a ha => ?_⟩
        exact (crossing_finds (hpop.trans habove) ho).1 hx a (List.mem_cons_of_mem _ ha)
      · obtain ⟨hseek, hcross⟩ := ih hps ((crossing_skips (hpop.trans habove) ho).1 hx)
        refine ⟨?_, (crossing_skips habove ho).2 hcross⟩
        rw [seek_skips (hpop.trans habove) ho, seek_skips habove ho, hseek]

/-- An opener that fits a closer ahead takes it, and nothing in front of it goes to anyone else: that would
    be a crossing. -/
theorem seek_used {front : List Token} {d : Token} (hfront : ∀ y ∈ front, ¬fits t y) (hd : fits t d)
    (hx : crossing fits o (t :: above) ((front ++ d :: ps).map .closer) = false) :
    seek fits o (t :: above) ((front ++ d :: ps).map .closer) = seek fits o above (ps.map .closer) ∧
      crossing fits o above (ps.map .closer) = false := by
  induction front with
  | nil =>
    have hpop : popFirst (fits · d) (t :: above) = some (t, above) :=
      popFirst_cons_of_pos (f := (fits · d)) hd above
    rw [List.nil_append, List.map_cons] at hx ⊢
    exact ⟨seek_takes hpop, ((crossing_takes hpop).1 hx).2⟩
  | cons y front ih =>
    have hy := hfront y (List.mem_cons_self ..)
    have hlater : fitsLater fits t ((front ++ d :: ps).map .closer) = true :=
      fitsLater_iff.2 ⟨d, List.mem_map_of_mem (by simp), hd⟩
    rw [List.cons_append, List.map_cons] at hx ⊢
    cases hpop : popFirst (fits · y) (t :: above) with
    | some r =>
      have hpassed : t ∈ (t :: above).takeWhile (!fits · y) := by
        rw [List.takeWhile_cons_of_pos (by simpa using hy)]
        exact List.mem_cons_self ..
      rw [((crossing_takes hpop).1 hx).1 t hpassed] at hlater
      cases hlater
    | none =>
      by_cases ho : fits o y
      · rw [(crossing_finds hpop ho).1 hx t (List.mem_cons_self ..)] at hlater
        cases hlater
      · rw [seek_skips hpop ho]
        exact ih (fun y hy => hfront y (List.mem_cons_of_mem _ hy)) ((crossing_skips hpop ho).1 hx)

/-- An opener met on the way back: it may take its closer first. -/
theorem seek_settle (hx : crossing fits o (t :: above) (ps.map .closer) = false) :
    seek fits o (t :: above) (ps.map .closer) = seek fits o above ((settle fits t ps).map .closer) ∧
      crossing fits o above ((settle fits t ps).map .closer) = false := by
  cases hpop : popFirst (fits t) ps with
  | none =>
    rw [settle_leaves hpop]
    exact seek_unused (popFirst_eq_none_iff.1 hpop) hx
  | some r =>
    obtain ⟨hd, front, rfl, hfront⟩ := popFirst_front hpop
    rw [settle_takes hpop]
    exact seek_used hfront hd hx

/-- **Where nothing crosses, the search may be run over the closers that wait** instead of the word. -/
theorem seek_waiting (hx : crossing fits o above (w ++ [.closer c]) = false) :
    seek fits o above (w ++ [.closer c]) = seek fits o above ((waiting fits [c] w).map .closer) ∧
      crossing fits o above ((waiting fits [c] w).map .closer) = false := by
  induction w generalizing above with
  | nil => exact ⟨rfl, hx⟩
  | cons x w ih =>
    cases x with
    | opener t =>
      obtain ⟨hseek, hcross⟩ := ih hx
      obtain ⟨hseek', hcross'⟩ := seek_settle hcross
      exact ⟨hseek.trans hseek', hcross'⟩
    | closer t =>
      -- the closers that wait are among those of the word
      have hsub : ∀ e, Bracket.closer e ∈ (waiting fits [c] w).map .closer →
          Bracket.closer e ∈ w ++ [.closer c] := by
        intro e he
        obtain ⟨y, hy, heq⟩ := List.mem_map.1 he
        cases heq
        rcases mem_waiting hy with hy | hy
        · rw [List.mem_singleton.1 hy]
          exact List.mem_append_right _ (List.mem_singleton_self _)
        · exact List.mem_append_left _ hy
      rw [List.cons_append] at hx ⊢
      rw [waiting, List.map_cons]
      cases hpop : popFirst (fits · t) above with
      | some r =>
        obtain ⟨hpass, hrest⟩ := (crossing_takes hpop).1 hx
        obtain ⟨hseek, hcross⟩ := ih hrest
        refine ⟨by rw [seek_takes hpop, seek_takes hpop, hseek], (crossing_takes hpop).2 ⟨?_, hcross⟩⟩
        exact fun a ha => fitsLater_mono hsub (hpass a ha)
      | none =>
        by_cases ho : fits o t
        · refine ⟨by rw [seek_finds hpop ho, seek_finds hpop ho], (crossing_finds hpop ho).2 ?_⟩
          exact fun a ha => fitsLater_mono hsub ((crossing_finds hpop ho).1 hx a ha)
        · obtain ⟨hseek, hcross⟩ := ih ((crossing_skips hpop ho).1 hx)
          exact ⟨by rw [seek_skips hpop ho, seek_skips hpop ho, hseek], (crossing_skips hpop ho).2 hcross⟩

/-- **Without crossing the same is found back**: the search from `o` finds the closer behind the word exactly
    if the search back from there finds `o`. -/
theorem seek_back_iff (hx : crossing fits o [] (w ++ [.closer c]) = false) (hc : Bracket.closer c ∉ w)
    (ho : Bracket.opener o ∉ w) :
    seek fits o [] (w ++ [.closer c]) = some c ↔
      seek (flip fits) c [] (mirror w ++ [.closer o]) = some o := by
  rw [(seek_waiting hx).1, seek_closers]
  rcases seek_mirror fits c w [] with ⟨t, ht, -, hwait, hseek⟩ | ⟨bs, hwait, hbs, hseek⟩
  · -- another opener takes `c`, so `c` does not wait for `o`
    rw [hseek]
    constructor
    · intro hfind
      exact absurd (hwait c (List.mem_of_find?_eq_some hfind)) hc
    · intro heq
      cases heq
      exact absurd ht ho
  · rw [hseek, show waiting fits [c] w = bs ++ [c] from hwait, List.find?_append]
    cases hfind : bs.find? (fits o) with
    | some y =>
      have hmem := List.mem_of_find?_eq_some hfind
      have hne : y ≠ c := by
        rintro rfl
        exact hc ((hbs y hmem).resolve_left (by simp))
      obtain ⟨r, hpop⟩ : ∃ r, popFirst (fits o) bs = some r := by
        refine Option.ne_none_iff_exists'.1 fun hnone => ?_
        exact popFirst_eq_none_iff.1 hnone y hmem (List.find?_some hfind)
      rw [seek_flip_takes hpop, Option.some_or]
      simp [seek, hne]
    | none =>
      have hpop : popFirst (fits o) bs = none :=
        popFirst_eq_none_iff.2 (by simpa using List.find?_eq_none.1 hfind)
      by_cases hfits : fits o c
      · rw [seek_flip_finds hpop hfits]
        simp [hfits]
      · rw [seek_flip_skips hpop hfits]
        simp [seek, hfits]

end BlockScript
