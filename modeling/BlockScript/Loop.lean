/-
  Loops that may have no end.

  A loop takes one step after the other until a step gives its result.  If none does it has no value.  A loop
  whose steps come down ends (`loop_ends`); one whose steps always go on does not (`loop_eq_none`).
-/

namespace BlockScript

/-- A step of a loop: the state that the next step starts from, or the result.  A step may also fail. -/
abbrev Step (σ β : Type) := σ → Option (σ ⊕ β)

/-- Takes steps from `s` on until one gives a result.  If none does there is no value, and running the loop
    does not return. -/
def Step.loop {σ β : Type} (step : Step σ β) (s : σ) : Option β :=
  match step s with
  | none => none
  | some (.inr b) => some b
  | some (.inl s) => step |>.loop s
partial_fixpoint

variable {σ β : Type} {step : Step σ β} {s s' : σ} {b : β}

theorem loop_inl (h : step s = some (.inl s')) : step.loop s = step.loop s' := by
  rw [Step.loop, h]

theorem loop_inr (h : step s = some (.inr b)) : step.loop s = some b := by
  rw [Step.loop, h]

theorem loop_none (h : step s = none) : step.loop s = none := by
  rw [Step.loop, h]

/-- **A loop that only goes on has no value**, if every step from a state of some kind goes on to another
    one of that kind. -/
theorem loop_eq_none {P : σ → Prop} (hstep : ∀ s, P s → ∃ s', step s = some (.inl s') ∧ P s') (hs : P s) :
    step.loop s = none := by
  cases hloop : step.loop s with
  | none => rfl
  | some b =>
    -- whatever the loop comes to, it does so from a state of another kind
    refine absurd hs (Step.loop.partial_correctness step (fun s _ => ¬P s) ?_ s b hloop)
    intro rest ih s b hb hs
    obtain ⟨s', hs', hnext⟩ := hstep s hs
    rw [hs'] at hb
    exact ih s' b hb hnext

/-- **A loop ends**, with a result that has `J`, if its steps keep to states with `I` and come down. -/
theorem loop_ends {I : σ → Prop} {J : β → Prop} (m : σ → Nat)
    (hstep : ∀ s, I s → (∃ r, step s = some (.inr r) ∧ J r) ∨ ∃ s', step s = some (.inl s') ∧ I s' ∧ m s' < m s)
    (hs : I s) : ∃ r, step.loop s = some r ∧ J r := by
  induction hn : m s using Nat.strongRecOn generalizing s with
  | _ n ih =>
    rcases hstep s hs with ⟨r, hend, hr⟩ | ⟨s', hgo, hs', hlt⟩
    · exact ⟨r, loop_inr hend, hr⟩
    · rw [loop_inl hgo]
      exact ih (m s') (hn ▸ hlt) hs' rfl

/-- **A loop gives what every step of it leaves unchanged**, and that has what every end of it gives it, if
    its steps keep to states of some kind and come down. -/
theorem loop_eq_some {I : σ → Prop} {Q : β → Prop} (f : σ → β) (m : σ → Nat)
    (hstep : ∀ s, I s → step s = some (.inr (f s)) ∧ Q (f s) ∨
      ∃ s', step s = some (.inl s') ∧ I s' ∧ m s' < m s ∧ f s' = f s)
    (hs : I s) : step.loop s = some (f s) ∧ Q (f s) := by
  have h : ∃ r, step.loop s = some r ∧ r = f s ∧ Q r := by
    refine loop_ends (I := fun t => I t ∧ f t = f s) m (fun t ht => ?_) ⟨hs, rfl⟩
    rcases hstep t ht.1 with ⟨hend, hq⟩ | ⟨s', hgo, hs', hlt, hsame⟩
    · exact .inl ⟨_, hend, ht.2, hq⟩
    · exact .inr ⟨s', hgo, ⟨hs', hsame.trans ht.2⟩, hlt⟩
  obtain ⟨_, hloop, rfl, hq⟩ := h
  exact ⟨hloop, hq⟩

end BlockScript
