/-
  The loops that fill a table.

  A table is filled by loops that go on until nothing is new.  Here they are written out as loops, and each is
  shown to end with what the table is defined by.

  1. **Keywords at the edges** (`edges_eq`).  Passes over the right-hand sides collect the keywords that
     instructions can begin with; a right-hand side that begins with an instruction adds all keywords collected
     so far.  It never adds a new one that way, so the first pass collects `firsts`, and the second one finds
     nothing new.  Over reversed right-hand sides the same loop collects `lasts`.
  2. **What an opener reaches** (`reached_eq`).  A pile holds the kinds whose partners are still to be looked at.
     A kind goes on the pile when it is met for the first time, so each kind does so once, and when the pile is
     empty the kinds met are the ends of all chains (`chain`).

  Sets are kept as lists without order here; both loops are read in the order of kinds.
-/
import BlockScript.Loop
import BlockScript.Proofs.EqualChains

namespace BlockScript

/-- The kinds of a set, in order. -/
def inOrder (ks : List TokenKind) : List TokenKind := TokenKind.all.filter (ks.contains ·)

theorem inOrder_eq_filter {ks : List TokenKind} {p : TokenKind → Bool} (h : ∀ k, k ∈ ks ↔ p k = true) :
    inOrder ks = TokenKind.all.filter p := by
  refine List.filter_congr fun k _ => ?_
  rw [Bool.eq_iff_iff, List.contains_iff_mem, h]

theorem inOrder_filter (p : TokenKind → Bool) : inOrder (TokenKind.all.filter p) = TokenKind.all.filter p :=
  inOrder_eq_filter fun k => by simp [TokenKind.mem_all]

/-! ## Keywords at the edges -/

namespace Grammar

/-- What a right-hand side adds to the keywords that instructions are known to begin with: the keyword at its
    front, or all those known and the keyword behind the instruction at its front. -/
def additions (known : List TokenKind) : List Symbol → List TokenKind
  | [] => []
  | .terminal k :: _ => [k]
  | .inst :: rest =>
    match rest.head? with
    | some (.terminal k) => known ++ [k]
    | _ => known

/-- Inserts kinds into a set, and notes whether one of them is new. -/
def insertAll (s : List TokenKind × Bool) (ks : List TokenKind) : List TokenKind × Bool :=
  ks.foldl (fun s k => (s.1.insert k, s.2 || !s.1.contains k)) s

/-- A pass over right-hand sides, which goes on with what those before have added. -/
def pass (s : List TokenKind × Bool) (es : List (List Symbol)) : List TokenKind × Bool :=
  es.foldl (fun s e => insertAll s (additions s.1 e)) s

/-- A round: another one follows if the pass changed anything. -/
def edgeStep (es : List (List Symbol)) : Step (List TokenKind) (List TokenKind) := fun known =>
  let s := pass (known, false) es
  some (if s.2 then .inl s.1 else .inr s.1)

/-- The keywords that instructions can begin with, by rounds from none on. -/
def edges (es : List (List Symbol)) : Option (List TokenKind) := (edgeStep es).loop []

variable {s : List TokenKind × Bool} {es : List (List Symbol)} {e : List Symbol} {k : TokenKind}

theorem mem_additions {known : List TokenKind} (h : k ∈ additions known e) :
    leading e = some k ∨ k ∈ known := by
  match e with
  | [] => cases h
  | .terminal x :: _ => exact .inl (congrArg some (List.mem_singleton.1 h).symm)
  | [.inst] => exact .inr h
  | .inst :: .inst :: _ => exact .inr h
  | .inst :: .terminal x :: _ =>
    rcases List.mem_append.1 h with h | h
    · exact .inr h
    · exact .inl (congrArg some (List.mem_singleton.1 h).symm)

theorem mem_additions_of_leading (known : List TokenKind) (h : leading e = some k) : k ∈ additions known e := by
  match e with
  | [] => cases h
  | .terminal x :: _ => exact List.mem_singleton.2 (Option.some.inj h).symm
  | [.inst] => cases h
  | .inst :: .inst :: _ => cases h
  | .inst :: .terminal x :: _ =>
    exact List.mem_append_right _ (List.mem_singleton.2 (Option.some.inj h).symm)

theorem insertAll_cons (x : TokenKind) (ks : List TokenKind) :
    insertAll s (x :: ks) = insertAll (s.1.insert x, s.2 || !s.1.contains x) ks := rfl

theorem mem_insertAll (ks : List TokenKind) : k ∈ (insertAll s ks).1 ↔ k ∈ s.1 ∨ k ∈ ks := by
  induction ks generalizing s with
  | nil => simp [insertAll]
  | cons x ks ih =>
    rw [insertAll_cons, ih, List.mem_insert_iff, List.mem_cons]
    tauto

/-- Something is new just if some kind was not there. -/
theorem insertAll_changed (ks : List TokenKind) :
    (insertAll s ks).2 = true ↔ s.2 = true ∨ ∃ k ∈ ks, k ∉ s.1 := by
  induction ks generalizing s with
  | nil => simp [insertAll]
  | cons x ks ih =>
    rw [insertAll_cons, ih]
    by_cases hx : x ∈ s.1 <;> simp [hx]

/-- The keyword at the front of some right-hand side. -/
def Leads (es : List (List Symbol)) (k : TokenKind) : Prop := ∃ e ∈ es, leading e = some k

theorem pass_cons : pass s (e :: es) = pass (insertAll s (additions s.1 e)) es := rfl

/-- **Step and run.**  A right-hand side adds the keyword at its front, and nothing else that is new; so does
    a pass with those of all. -/
theorem mem_pass : k ∈ (pass s es).1 ↔ k ∈ s.1 ∨ Leads es k := by
  induction es generalizing s with
  | nil => simp [pass, Leads]
  | cons e es ih =>
    have hstep : k ∈ (insertAll s (additions s.1 e)).1 ↔ k ∈ s.1 ∨ leading e = some k := by
      rw [mem_insertAll]
      constructor
      · rintro (h | h)
        · exact .inl h
        · exact (mem_additions h).symm
      · rintro (h | h)
        · exact .inl h
        · exact .inr (mem_additions_of_leading _ h)
    rw [pass_cons, ih, hstep, Leads, Leads, List.exists_mem_cons_iff, or_assoc]

/-- A pass changes something just if the keyword at some front was not known. -/
theorem pass_changed : (pass s es).2 = true ↔ s.2 = true ∨ ∃ k, Leads es k ∧ k ∉ s.1 := by
  induction es generalizing s with
  | nil => simp [pass, Leads]
  | cons e es ih =>
    have hadds : (∃ k ∈ additions s.1 e, k ∉ s.1) ↔ ∃ k, leading e = some k ∧ k ∉ s.1 := by
      refine exists_congr fun k => and_congr_left fun hk => ?_
      exact ⟨fun h => (mem_additions h).resolve_right hk, mem_additions_of_leading _⟩
    rw [pass_cons, ih, insertAll_changed, hadds]
    constructor
    · rintro ((h | ⟨k, hk, hnew⟩) | ⟨k, ⟨e', he', hk⟩, hnew⟩)
      · exact .inl h
      · exact .inr ⟨k, ⟨e, List.mem_cons_self .., hk⟩, hnew⟩
      · rw [mem_insertAll, not_or] at hnew
        exact .inr ⟨k, ⟨e', List.mem_cons_of_mem _ he', hk⟩, hnew.1⟩
    · rintro (h | ⟨k, ⟨e', he', hk⟩, hnew⟩)
      · exact .inl (.inl h)
      · -- the keyword is this front's, or it is still new behind it
        by_cases hhere : leading e = some k
        · exact .inl (.inr ⟨k, hhere, hnew⟩)
        · rcases List.mem_cons.1 he' with rfl | he'
          · exact absurd hk hhere
          · refine .inr ⟨k, ⟨e', he', hk⟩, ?_⟩
            rw [mem_insertAll, not_or]
            exact ⟨hnew, fun h => (mem_additions h).elim hhere hnew⟩

/-- Where all fronts are known, the round is the last one and finds no other keyword. -/
theorem edgeStep_stops (known : List TokenKind) (h : ∀ k, Leads es k → k ∈ known) :
    ∃ s, edgeStep es known = some (.inr s) ∧ ∀ k, k ∈ s ↔ k ∈ known := by
  have hsame : (pass (known, false) es).2 = false := by
    rw [← Bool.not_eq_true, pass_changed]
    rintro (h' | ⟨k, hk, hnew⟩)
    · cases h'
    · exact hnew (h k hk)
  refine ⟨(pass (known, false) es).1, ?_, fun k => ?_⟩
  · dsimp only [edgeStep]
    rw [hsame]
    rfl
  · rw [mem_pass]
    exact ⟨fun hk => hk.elim id (h k), .inl⟩

/-- The rounds end, with the keywords at the fronts. -/
theorem exists_edges (es : List (List Symbol)) : ∃ s, edges es = some s ∧ ∀ k, k ∈ s ↔ Leads es k := by
  have hfirst : ∀ k, k ∈ (pass ([], false) es).1 ↔ Leads es k := by
    intro k
    rw [mem_pass]
    simp
  by_cases hchanged : (pass ([], false) es).2 = true
  · -- one more round
    have hgo : edgeStep es [] = some (.inl (pass ([], false) es).1) := by
      dsimp only [edgeStep]
      rw [if_pos hchanged]
    obtain ⟨s, hstep, hs⟩ := edgeStep_stops (pass ([], false) es).1 fun k => (hfirst k).2
    exact ⟨s, (loop_inl hgo).trans (loop_inr hstep), fun k => (hs k).trans (hfirst k)⟩
  · have hend : edgeStep es [] = some (.inr (pass ([], false) es).1) := by
      dsimp only [edgeStep]
      rw [if_neg hchanged]
    exact ⟨_, loop_inr hend, hfirst⟩

/-- **The rounds collect the keywords at the edges**: `firsts`, and over reversed right-hand sides `lasts`. -/
theorem edges_eq (es : List (List Symbol)) :
    (edges es).map inOrder = some (firsts es) ∧ (edges (es.map List.reverse)).map inOrder = some (lasts es) := by
  obtain ⟨s, hs, hmem⟩ := exists_edges es
  obtain ⟨s', hs', hmem'⟩ := exists_edges (es.map List.reverse)
  rw [hs, hs', Option.map_some, Option.map_some]
  refine ⟨congrArg some (inOrder_eq_filter fun k => ?_), congrArg some (inOrder_eq_filter fun k => ?_)⟩
  · rw [hmem, Leads]
    simp
  · rw [hmem', Leads]
    simp only [List.mem_map, exists_exists_and_eq_and, List.any_eq_true, decide_eq_true_eq]

end Grammar

/-! ## What an opener reaches -/

namespace PrecedenceTable

variable {eq : TokenKind → TokenKind → Bool} {k : TokenKind}

/-- A kind is met: if it is new it joins the kinds met and goes on the pile. -/
def note (s : List TokenKind × List TokenKind) (next : TokenKind) : List TokenKind × List TokenKind :=
  if next ∈ s.1 then s else (next :: s.1, next :: s.2)

/-- A turn: the partners of the kind on top of the pile are met. -/
def reachStep (eq : TokenKind → TokenKind → Bool) :
    Step (List TokenKind × List TokenKind) (List TokenKind) := fun s =>
  match s.2 with
  | [] => some (.inr s.1)
  | k :: todo => some (.inl ((TokenKind.all.filter (eq k)).foldl note (s.1, todo)))

/-- The kinds met from `k` on, with `k` alone on the pile at first. -/
def reached (eq : TokenKind → TokenKind → Bool) (k : TokenKind) : Option (List TokenKind) :=
  (reachStep eq).loop ([], [k])

/-- What holds between turns: the kinds met are met once, at the end of a chain from `k`, and the partners of
    `k` and of all of them have been met, but for those of the kinds on the pile. -/
structure Spread (eq : TokenKind → TokenKind → Bool) (k : TokenKind) (s : List TokenKind × List TokenKind) :
    Prop where
  nodup : s.1.Nodup
  chained : ∀ c ∈ s.1, Relation.TransGen (eq · · = true) k c
  pile : ∀ c ∈ s.2, c = k ∨ c ∈ s.1
  closed : ∀ b, b = k ∨ b ∈ s.1 → b ∈ s.2 ∨ ∀ c, eq b c = true → c ∈ s.1

/-- The kinds not met yet count twice, those on the pile once: a kind that goes on the pile brings this down. -/
def work (s : List TokenKind × List TokenKind) : Nat :=
  2 * (TokenKind.all.length - s.1.length) + s.2.length

theorem length_le_of_nodup {ks : List TokenKind} (h : ks.Nodup) : ks.length ≤ TokenKind.all.length :=
  (List.subperm_of_subset h fun k _ => TokenKind.mem_all k).length_le

/-- Of the kinds met those that are new join the kinds met and the pile alike. -/
theorem exists_foldl_note (ks : List TokenKind) (s : List TokenKind × List TokenKind) :
    ∃ new, ks.foldl note s = (new ++ s.1, new ++ s.2) ∧ new.Nodup ∧ ∀ c, c ∈ new ↔ c ∈ ks ∧ c ∉ s.1 := by
  induction ks generalizing s with
  | nil => exact ⟨[], rfl, .nil, by simp⟩
  | cons x ks ih =>
    rw [List.foldl_cons, note]
    by_cases hx : x ∈ s.1
    · obtain ⟨new, heq, hnodup, hmem⟩ := ih s
      rw [if_pos hx, heq]
      refine ⟨new, rfl, hnodup, fun c => ?_⟩
      rw [hmem, List.mem_cons]
      refine and_congr_left fun hc => (or_iff_right ?_).symm
      rintro rfl
      exact hc hx
    · obtain ⟨new, heq, hnodup, hmem⟩ := ih (x :: s.1, x :: s.2)
      rw [if_neg hx, heq]
      refine ⟨new ++ [x], by simp, ?_, fun c => ?_⟩
      · refine List.nodup_append.2 ⟨hnodup, List.nodup_cons.2 ⟨List.not_mem_nil, .nil⟩, fun c hc d hd heq => ?_⟩
        rw [heq, List.mem_singleton.1 hd, hmem] at hc
        exact hc.2 (List.mem_cons_self ..)
      · rw [List.mem_append, hmem, List.mem_singleton, List.mem_cons, List.mem_cons]
        by_cases hcx : c = x
        · simp [hcx, hx]
        · simp [hcx]

/-- **Step.**  A turn keeps to it, and leaves less to do. -/
theorem Spread.turn {met todo : List TokenKind} {b : TokenKind} (h : Spread eq k (met, b :: todo)) :
    Spread eq k ((TokenKind.all.filter (eq b)).foldl note (met, todo)) ∧
      work ((TokenKind.all.filter (eq b)).foldl note (met, todo)) < work (met, b :: todo) := by
  obtain ⟨new, heq, hnodup, hnew⟩ := exists_foldl_note (TokenKind.all.filter (eq b)) (met, todo)
  have hpartner : ∀ c, c ∈ TokenKind.all.filter (eq b) ↔ eq b c = true := by simp [TokenKind.mem_all]
  have hb : b = k ∨ b ∈ met := h.pile b (List.mem_cons_self ..)
  have hnodup' : (new ++ met).Nodup := by
    refine List.nodup_append.2 ⟨hnodup, h.nodup, fun c hc d hd heq => ?_⟩
    exact ((hnew c).1 hc).2 (heq ▸ hd)
  rw [heq]
  refine ⟨⟨hnodup', fun c hc => ?_, fun c hc => ?_, fun c hc => ?_⟩, ?_⟩
  · rcases List.mem_append.1 hc with hc | hc
    · have hbc := (hpartner c).1 ((hnew c).1 hc).1
      rcases hb with rfl | hb
      · exact .single hbc
      · exact .tail (h.chained b hb) hbc
    · exact h.chained c hc
  · rcases List.mem_append.1 hc with hc | hc
    · exact .inr (List.mem_append_left _ hc)
    · exact (h.pile c (List.mem_cons_of_mem _ hc)).imp id (List.mem_append_right _)
  · -- a kind met before, or one that is new and on the pile
    have hcases : c ∈ new ∨ c = k ∨ c ∈ met := by
      rcases hc with hc | hc
      · exact .inr (.inl hc)
      · exact (List.mem_append.1 hc).imp id .inr
    rcases hcases with hc | hc
    · exact .inl (List.mem_append_left _ hc)
    · rcases h.closed c hc with hpile | hall
      · rcases List.mem_cons.1 hpile with rfl | hpile
        · refine .inr fun x hx => ?_
          by_cases hmet : x ∈ met
          · exact List.mem_append_right _ hmet
          · exact List.mem_append_left _ ((hnew x).2 ⟨(hpartner x).2 hx, hmet⟩)
        · exact .inl (List.mem_append_right _ hpile)
      · exact .inr fun x hx => List.mem_append_right _ (hall x hx)
  · have hle := length_le_of_nodup hnodup'
    simp only [work, List.length_append, List.length_cons] at hle ⊢
    omega

/-- Once the pile is empty, the ends of all chains are met. -/
theorem Spread.mem_iff {met : List TokenKind} (h : Spread eq k (met, [])) (c : TokenKind) :
    c ∈ met ↔ Relation.TransGen (eq · · = true) k c := by
  have hclosed : ∀ b, b = k ∨ b ∈ met → ∀ c, eq b c = true → c ∈ met :=
    fun b hb => (h.closed b hb).resolve_left List.not_mem_nil
  refine ⟨h.chained c, fun hc => ?_⟩
  induction hc with
  | single hkc => exact hclosed k (.inl rfl) _ hkc
  | tail _ hbc ih => exact hclosed _ (.inr ih) _ hbc

theorem inOrder_chain (eq : TokenKind → TokenKind → Bool) (k : TokenKind) (n : Nat) :
    inOrder (chain eq k n) = chain eq k n := by
  cases n <;> (rw [chain]; exact inOrder_filter _)

/-- **Run.**  The turns end, and the kinds met are those that chains lead to. -/
theorem reached_eq (eq : TokenKind → TokenKind → Bool) (k : TokenKind) :
    (reached eq k).map inOrder = some (chain eq k TokenKind.all.length) := by
  have hstart : Spread eq k ([], [k]) :=
    ⟨.nil, fun c hc => (by cases hc), fun c hc => .inl (List.mem_singleton.1 hc),
      fun b hb => .inl (List.mem_singleton.2 (hb.resolve_right List.not_mem_nil))⟩
  have hends : ∃ met, reached eq k = some met ∧ Spread eq k (met, []) := by
    refine loop_ends (I := Spread eq k) (J := fun met => Spread eq k (met, [])) work ?_ hstart
    rintro ⟨met, _ | ⟨b, todo⟩⟩ hs
    · exact .inl ⟨met, rfl, hs⟩
    · exact .inr ⟨_, rfl, hs.turn⟩
  obtain ⟨met, hmet, hspread⟩ := hends
  rw [hmet, Option.map_some, ← inOrder_chain]
  refine congrArg some (inOrder_eq_filter fun c => ?_)
  rw [hspread.mem_iff, List.contains_iff_mem, mem_chain_iff]

end PrecedenceTable

end BlockScript
