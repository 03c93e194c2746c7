/-
  Runs of a session: which findings count, and which checks are superseded.

  A run is any list of operations.  Every start opens a generation, also one that fails, and nothing else
  does, so the generation of a session counts the starts (`foldl_generation`); a check keeps the generation
  and the text it was started with.  Hence the findings of a check are accepted exactly until the next
  start: `accept_latest_only`.

  The signal that a session keeps and the signals that have fired hang together (`Linked`): the one check
  whose signal has not fired is the one whose signal the session keeps, and it has the current generation.
  Every operation keeps that up, so the signal of a check has fired exactly if some operation since its
  start has used it or given it up: `superseded_by_replacement`.
-/
import BlockScript.Lint.Session
import Mathlib.Data.List.Induction

namespace BlockScript

namespace Session

/-! ## Runs -/

/-- What can be done with a session.  A start and a wait come with the linter as it is then, so starting
    may fail at one time and not at another, and the linter may do anything with its input.  A wait stands
    where it ends.  Any outcome may be offered for acceptance, those that waits gave among them. -/
inductive Op where
  | start (l : Linter) (t : Text)
  | cancel
  | wait (l : Linter) (i : Nat) (linterFirst : Bool)
  | drop (i : Nat)
  | accept (o : Outcome)

/-- Whether the operation is a start, successful or not. -/
def Op.isStart : Op → Bool
  | .start _ _ => true
  | _ => false

/-- The session after one operation. -/
def step (s : Session) : Op → Session
  | .start l t => (s.start l t).2
  | .cancel => s.cancel
  | .wait l i linterFirst => (s.wait l i linterFirst).2
  | .drop i => (s.drop i).2
  | .accept o => (s.accept o).2

/-- The session after a run from the beginning. -/
def after (ops : List Op) : Session := ops.foldl step {}

/-- Whether the operation uses the signal that the session keeps, or gives it up: a start, a cancellation,
    or the acceptance of findings of the current generation. -/
def supersedes (s : Session) : Op → Bool
  | .start _ _ => true
  | .cancel => true
  | .wait _ _ _ => false
  | .drop _ => false
  | .accept (.finished generation _) => generation = s.generation
  | .accept (.superseded _) => false

theorem after_append (ops ops' : List Op) : after (ops ++ ops') = ops'.foldl step (after ops) :=
  List.foldl_append

theorem after_snoc (ops : List Op) (op : Op) : after (ops ++ [op]) = (after ops).step op :=
  after_append ops [op]

/-! ## What one operation does -/

variable {s : Session} {l : Linter} {t : Text} {i : Nat} {c : Check} {o : Outcome}

@[simp] theorem cancel_generation (s : Session) : s.cancel.generation = s.generation := by
  unfold cancel
  split <;> rfl

@[simp] theorem cancel_live (s : Session) : s.cancel.live = none := by
  unfold cancel
  split
  · next h => exact h
  · rfl

theorem getElem?_cancel (s : Session) (i : Nat) :
    s.cancel.checks[i]? =
      s.checks[i]?.map fun c => { c with signalled := c.signalled || decide (s.live = some i) } := by
  unfold cancel
  split
  · next h => simp [h]
  · next j h =>
    simp only [h, List.getElem?_modify, Option.some.injEq]
    by_cases hij : j = i
    · simp [hij]
    · simp [hij]

@[simp] theorem length_cancel (s : Session) : s.cancel.checks.length = s.checks.length := by
  unfold cancel
  split
  · rfl
  · exact List.length_modify ..

theorem getElem?_setState (s : Session) (i j : Nat) (state : CheckState) :
    (s.setState i state).checks[j]? =
      s.checks[j]?.map fun c => if i = j then { c with state := state } else c := by
  show (s.checks.modify i _)[j]? = _
  rw [List.getElem?_modify]
  cases s.checks[j]? with
  | none => rfl
  | some c => split <;> rfl

/-- All that an operation can do to a session. -/
inductive Effect (s : Session) : Op → Session → Prop
  /-- a start that succeeds: the check before it is signalled, and the new one's signal is kept -/
  | started (l : Linter) (t : Text) (h : (s.start l t).1 = .ok s.checks.length) :
      Effect s (.start l t) ⟨s.generation + 1, some s.checks.length,
        s.cancel.checks ++ [⟨s.generation + 1, t, false, .pending⟩]⟩
  /-- a start that fails: a generation is opened all the same -/
  | refused (l : Linter) (t : Text) (e : CheckError) (h : (s.start l t).1 = .error e) :
      Effect s (.start l t) { s.cancel with generation := s.generation + 1 }
  /-- a cancellation, or findings accepted -/
  | fired {op : Op} (hs : op.isStart = false) (h : s.supersedes op = true) : Effect s op s.cancel
  /-- a wait that ends, or a drop -/
  | marked {op : Op} (hs : op.isStart = false) (h : s.supersedes op = false) (i : Nat) (state : CheckState) :
      Effect s op (s.setState i state)
  | idle {op : Op} (hs : op.isStart = false) (h : s.supersedes op = false) : Effect s op s

theorem step_effect (s : Session) (op : Op) : Effect s op (s.step op) := by
  cases op with
  | start l t =>
    cases he : l.startError? with
    | some e =>
      have hs : s.start l t = (.error e, { s.cancel with generation := s.generation + 1 }) := by
        unfold start
        rw [he]
      rw [step, hs]
      exact .refused l t e (by rw [hs])
    | none =>
      have hs : s.start l t = (.ok s.checks.length, ⟨s.generation + 1, some s.checks.length,
          s.cancel.checks ++ [⟨s.generation + 1, t, false, .pending⟩]⟩) := by
        unfold start
        rw [he]
        simp only [length_cancel]
      rw [step, hs]
      exact .started l t (by rw [hs])
  | cancel => exact .fired rfl rfl
  | wait l i linterFirst =>
    show Effect s _ (s.wait l i linterFirst).2
    unfold wait
    split
    · exact .idle rfl rfl
    · split
      · exact .idle rfl rfl
      · split
        · exact .marked rfl rfl i _
        · exact .marked rfl rfl i _
        · split
          · exact .marked rfl rfl i _
          · exact .idle rfl rfl
  | drop i =>
    show Effect s _ (s.drop i).2
    unfold drop
    split
    · exact .idle rfl rfl
    · split
      · exact .marked rfl rfl i _
      · exact .idle rfl rfl
  | accept o =>
    cases o with
    | superseded g => exact .idle rfl rfl
    | finished g ds =>
      show Effect s _ (s.accept (.finished g ds)).2
      by_cases h : g = s.generation
      · rw [accept, if_pos h]
        exact .fired rfl (decide_eq_true h)
      · rw [accept, if_neg h]
        exact .idle rfl (decide_eq_false h)

/-- Every start opens a generation, and nothing else does. -/
theorem step_generation (s : Session) (op : Op) :
    (s.step op).generation = s.generation + if op.isStart then 1 else 0 := by
  have heffect := s.step_effect op
  generalize s.step op = s' at heffect
  cases heffect with
  | started l t h => rfl
  | refused l t e h => rfl
  | fired hs h =>
    rw [hs]
    exact s.cancel_generation
  | marked hs h i state =>
    rw [hs]
    rfl
  | idle hs h =>
    rw [hs]
    rfl

/-- **What an operation does to a check.**  Its generation and its text stay; its signal fires if the
    session keeps it and the operation uses it or gives it up, and stays fired. -/
theorem step_check (h : s.checks[i]? = some c) (op : Op) :
    ∃ state, (s.step op).checks[i]? = some
      { c with signalled := c.signalled || (decide (s.live = some i) && s.supersedes op), state := state } := by
  have hcancel : s.cancel.checks[i]? =
      some { c with signalled := c.signalled || decide (s.live = some i) } := by
    rw [getElem?_cancel, h]
    rfl
  have heffect := s.step_effect op
  generalize s.step op = s' at heffect
  cases heffect with
  | started l t hok =>
    have hlt : i < s.cancel.checks.length := (List.getElem?_eq_some_iff.1 hcancel).1
    refine ⟨c.state, ?_⟩
    rw [supersedes, Bool.and_true, ← hcancel]
    exact List.getElem?_append_left hlt
  | refused l t e herror =>
    refine ⟨c.state, ?_⟩
    rw [supersedes, Bool.and_true]
    exact hcancel
  | fired hs hsup =>
    refine ⟨c.state, ?_⟩
    rw [hsup, Bool.and_true]
    exact hcancel
  | marked hs hsup j state =>
    rw [hsup, Bool.and_false, Bool.or_false, getElem?_setState, h]
    by_cases hij : j = i
    · exact ⟨state, by simp [hij]⟩
    · exact ⟨c.state, by simp [hij]⟩
  | idle hs hsup =>
    refine ⟨c.state, ?_⟩
    rw [hsup, Bool.and_false, Bool.or_false]
    exact h

/-- A start that succeeds adds its check, in the generation it opens, and keeps the check's signal. -/
theorem step_start (h : (s.start l t).1 = .ok i) :
    (s.step (.start l t)).live = some i ∧ (s.step (.start l t)).generation = s.generation + 1 ∧
      (s.step (.start l t)).checks[i]? = some ⟨s.generation + 1, t, false, .pending⟩ := by
  have heffect := s.step_effect (.start l t)
  generalize s.step (.start l t) = s' at heffect
  cases heffect with
  | started _ _ hok =>
    obtain rfl : i = s.checks.length := Except.ok.inj (h.symm.trans hok)
    refine ⟨rfl, rfl, ?_⟩
    rw [← length_cancel]
    exact List.getElem?_concat_length ..
  | refused _ _ e herror => cases h.symm.trans herror
  | fired hs hsup => cases hs
  | marked hs hsup j state => cases hs
  | idle hs hsup => cases hs

/-- The checks after an operation are those before it and, after a start that succeeds, the new one. -/
theorem step_old_or_new {op : Op} (h : (s.step op).checks[i]? = some c) :
    (∃ old, s.checks[i]? = some old) ∨ ∃ l t, op = .start l t ∧ (s.start l t).1 = .ok i := by
  have hcancel : s.cancel.checks[i]? = some c → ∃ old, s.checks[i]? = some old := by
    intro hc
    rw [getElem?_cancel] at hc
    obtain ⟨old, hold, -⟩ := Option.map_eq_some_iff.1 hc
    exact ⟨old, hold⟩
  have heffect := s.step_effect op
  generalize s.step op = s' at heffect h
  cases heffect with
  | started l t hok =>
    change (s.cancel.checks ++ [_])[i]? = some c at h
    rw [List.getElem?_append] at h
    split at h
    · exact Or.inl (hcancel h)
    · next hge =>
      have hlast : i - s.cancel.checks.length = 0 := by
        have := (List.getElem?_eq_some_iff.1 h).1
        simp only [List.length_singleton] at this
        omega
      obtain rfl : i = s.checks.length := by
        rw [length_cancel] at hge hlast
        omega
      exact Or.inr ⟨l, t, rfl, hok⟩
  | refused l t e herror => exact Or.inl (hcancel h)
  | fired hs hsup => exact Or.inl (hcancel h)
  | marked hs hsup j state =>
    rw [getElem?_setState] at h
    obtain ⟨old, hold, -⟩ := Option.map_eq_some_iff.1 h
    exact Or.inl ⟨old, hold⟩
  | idle hs hsup => exact Or.inl ⟨c, h⟩

/-- Of the checks that are there, the session goes on keeping the signal of the one whose signal it
    keeps, unless the operation uses it or gives it up. -/
theorem step_live_iff (hold : i < s.checks.length) (op : Op) :
    (s.step op).live = some i ↔ s.live = some i ∧ s.supersedes op = false := by
  have heffect := s.step_effect op
  generalize s.step op = s' at heffect
  cases heffect with
  | started l t hok =>
    have hne : s.checks.length ≠ i := by omega
    simp [supersedes, hne]
  | refused l t e herror => simp [supersedes]
  | fired hs hsup => simp [hsup]
  | marked hs hsup j state =>
    show s.live = some i ↔ _
    simp [hsup]
  | idle hs hsup => simp [hsup]

/-! ## What a run does -/

/-- The generation counts the starts. -/
theorem foldl_generation (s : Session) (ops : List Op) :
    (ops.foldl step s).generation = s.generation + ops.countP Op.isStart := by
  induction ops generalizing s with
  | nil => rfl
  | cons op ops ih =>
    rw [List.foldl_cons, ih, step_generation, List.countP_cons]
    omega

/-- A check keeps its generation and its text, and a signal that has fired stays fired. -/
theorem foldl_check (h : s.checks[i]? = some c) (ops : List Op) :
    ∃ c', (ops.foldl step s).checks[i]? = some c' ∧ c'.generation = c.generation ∧ c'.input = c.input ∧
      (c.signalled → c'.signalled) := by
  induction ops generalizing s c with
  | nil => exact ⟨c, h, rfl, rfl, id⟩
  | cons op ops ih =>
    obtain ⟨state, hstep⟩ := step_check h op
    obtain ⟨c', hc', hgen, hinput, hsignalled⟩ := ih hstep
    refine ⟨c', hc', hgen, hinput, fun hc => hsignalled ?_⟩
    simp [hc]

/-- Where check `i` was started in the run `ops`: `pre` went before, `l` and `t` are the linter and the text
    of its start, and `post` came after. -/
structure StartedAt (ops : List Op) (i : Nat) (pre : List Op) (l : Linter) (t : Text) (post : List Op) :
    Prop where
  run : ops = pre ++ .start l t :: post
  succeeds : ((after pre).start l t).1 = .ok i

/-- Every check was started. -/
theorem exists_startedAt {ops : List Op} (h : (after ops).checks[i]? = some c) :
    ∃ pre l t post, StartedAt ops i pre l t post := by
  induction ops using List.reverseRecOn generalizing c with
  | nil => cases h
  | append_singleton ops op ih =>
    rw [after_snoc] at h
    rcases step_old_or_new h with ⟨old, hold⟩ | ⟨l, t, rfl, hok⟩
    · obtain ⟨pre, l, t, post, rfl, hok⟩ := ih hold
      exact ⟨pre, l, t, post ++ [op], by simp, hok⟩
    · exact ⟨ops, l, t, [], rfl, hok⟩

namespace StartedAt

variable {ops pre post : List Op}

/-- The run goes on from the session that the start leaves. -/
theorem after_eq (h : StartedAt ops i pre l t post) :
    after ops = post.foldl step ((after pre).step (.start l t)) := by
  rw [h.run, after_append, List.foldl_cons]

/-- A check has the generation its start opened, and the text given to that start. -/
theorem check (h : StartedAt ops i pre l t post) (hc : (after ops).checks[i]? = some c) :
    c.generation = (after pre).generation + 1 ∧ c.input = t := by
  obtain ⟨-, -, hnew⟩ := step_start h.succeeds
  obtain ⟨c', hc', hgen, hinput, -⟩ := foldl_check hnew post
  rw [h.after_eq, hc'] at hc
  obtain rfl := Option.some.inj hc
  exact ⟨hgen, hinput⟩

/-- The generation of a session counts the starts since any start. -/
theorem generation_eq (h : StartedAt ops i pre l t post) :
    (after ops).generation = (after pre).generation + 1 + post.countP Op.isStart := by
  rw [h.after_eq, foldl_generation, (step_start h.succeeds).2.1]

/-- What is done after a run comes after every start in it. -/
theorem append (h : StartedAt ops i pre l t post) (later : List Op) :
    StartedAt (ops ++ later) i pre l t (post ++ later) :=
  ⟨by rw [h.run, List.append_assoc, List.cons_append], h.succeeds⟩

end StartedAt

/-! ## Findings that count -/

/-- What a wait that gives an outcome says: that the check is superseded, or what its linter found. -/
theorem wait_outcome {linterFirst : Bool} (h : (s.wait l i linterFirst).1 = .outcome o) :
    ∃ c, s.checks[i]? = some c ∧ (o = .superseded c.generation ∨
      ∃ ds, l.check c.input = some (.ok ds) ∧ o = .finished c.generation ds) := by
  unfold wait at h
  cases hc : s.checks[i]? with
  | none => simp [hc] at h
  | some c =>
    refine ⟨c, rfl, ?_⟩
    simp only [hc] at h
    split at h
    · cases h
    · split at h
      · next ds hds =>
        right
        obtain rfl : Outcome.finished c.generation ds = o := Waited.outcome.inj h
        refine ⟨ds, ?_, rfl⟩
        split at hds
        · cases hds
        · exact hds
      · cases h
      · split at h
        · left
          exact (Waited.outcome.inj h).symm
        · cases h

/-- The findings of a linter are the records of its report, placed in the text. -/
theorem eq_ofRecords_of_check {ds : List Diagnostic} (h : l.check t = some (.ok ds)) :
    ds = Diagnostic.ofRecords t (Report.parse
      (Report.join (Text.ofBytesLossy (l.run t).out) (Text.ofBytesLossy (l.run t).err))) := by
  unfold Linter.check at h
  dsimp only at h
  split at h
  · exact (Except.ok.inj (Option.some.inj h)).symm
  · cases hl : l.limit with
    | none => simp [hl] at h
    | some limit => simp [hl] at h

/-- **Only the latest check's findings count.**  Take any run in which a wait for a check gives an
    outcome.  The check was started in it; and whatever is done after the wait, the outcome is accepted
    exactly if it holds findings and no start came after the start of its check.  The findings are then
    those of the linter's report about the text given to that start. -/
theorem accept_latest_only (ops later : List Op) (l : Linter) (i : Nat) (linterFirst : Bool) (o : Outcome)
    (hwait : ((after ops).wait l i linterFirst).1 = .outcome o) :
    (∃ pre l' t post, StartedAt ops i pre l' t post) ∧
      ∀ pre l' t post, StartedAt ops i pre l' t post →
        let s := after (ops ++ .wait l i linterFirst :: later)
        ((s.accept o).1.isSome ↔
          (∃ g ds, o = .finished g ds) ∧ ∀ op ∈ post ++ later, ¬op.isStart) ∧
        ∀ ds, (s.accept o).1 = some ds →
          ds = Diagnostic.ofRecords t (Report.parse
            (Report.join (Text.ofBytesLossy (l.run t).out) (Text.ofBytesLossy (l.run t).err))) := by
  obtain ⟨c, hc, ho⟩ := wait_outcome hwait
  refine ⟨exists_startedAt hc, ?_⟩
  intro pre l' t post hstart s
  obtain ⟨hgen, rfl⟩ := hstart.check hc
  -- the generation of the session is that of the check exactly if no start came after its own
  have hcount : c.generation = s.generation ↔ ∀ op ∈ post ++ later, ¬op.isStart := by
    have hs := (hstart.append (.wait l i linterFirst :: later)).generation_eq
    rw [List.countP_append, List.countP_cons_of_neg (by simp [Op.isStart])] at hs
    rw [← List.countP_eq_zero, List.countP_append]
    show c.generation = (after (ops ++ .wait l i linterFirst :: later)).generation ↔ _
    omega
  rcases ho with rfl | ⟨ds, hds, rfl⟩
  · refine ⟨⟨fun h => ?_, ?_⟩, fun ds h => ?_⟩
    · cases h
    · rintro ⟨⟨g, ds, h⟩, -⟩
      cases h
    · cases h
  · rw [← hcount]
    by_cases heq : c.generation = s.generation
    · rw [accept, if_pos heq]
      refine ⟨⟨fun _ => ⟨⟨_, ds, rfl⟩, heq⟩, fun _ => rfl⟩, fun ds' h => ?_⟩
      obtain rfl : ds = ds' := Option.some.inj h
      exact eq_ofRecords_of_check hds
    · rw [accept, if_neg heq]
      refine ⟨⟨fun h => ?_, fun h => absurd h.2 heq⟩, fun ds' h => ?_⟩
      · cases h
      · cases h

/-- A check that is cancelled while its linter ends: what the linter found, if that is seen first, is
    accepted, and again when it is offered again, but no longer after a start, even one that fails. -/
theorem accept_latest_only_race :
    let lint : Linter := { program := "lint", run := fun _ => { out := Text.toBytes "-:2:\nerror: x".toList } }
    let gone : Linter := { program := "lint", refusal := some .notFound }
    let ops : List Op := [.start lint "a\nb".toList, .cancel]
    let d : Diagnostic := ⟨2, 3, 2, .error, "x".toList⟩
    let o : Outcome := .finished 1 [d]
    ((after ops).wait lint 0 true).1 = .outcome o ∧
      ((after (ops ++ .wait lint 0 true :: [.accept o])).accept o).1 = some [d] ∧
      ((after (ops ++ .wait lint 0 true :: [.start gone "b".toList])).accept o).1 = none := by
  intro lint gone ops d o
  have hwait : ((after ops).wait lint 0 true).1 = .outcome o := by decide +kernel
  have hstart : StartedAt ops 0 [] lint "a\nb".toList [.cancel] := ⟨rfl, rfl⟩
  have hlatest := (accept_latest_only ops [.accept o] lint 0 true o hwait).2 _ _ _ _ hstart
  have hlate := (accept_latest_only ops [.start gone "b".toList] lint 0 true o hwait).2 _ _ _ _ hstart
  refine ⟨hwait, ?_, ?_⟩
  · obtain ⟨ds, hds⟩ := Option.isSome_iff_exists.1 (hlatest.1.2 ⟨⟨1, [d], rfl⟩, by simp [Op.isStart]⟩)
    have hfound : ds = [d] := by
      rw [hlatest.2 ds hds]
      decide +kernel
    rw [hds, hfound]
  · refine Option.not_isSome_iff_eq_none.1 fun hsome => ?_
    exact (hlate.1.1 hsome).2 (.start gone "b".toList) (by simp) rfl

/-! ## Checks that are superseded -/

/-- How the signal that a session keeps and the signals of its checks hang together: the one that has
    not fired is the one it keeps, and belongs to a check of the current generation. -/
structure Linked (s : Session) : Prop where
  live_iff : ∀ i c, s.checks[i]? = some c → (c.signalled = false ↔ s.live = some i)
  current : ∀ i c, s.checks[i]? = some c → s.live = some i → c.generation = s.generation

theorem Linked.step (h : s.Linked) (op : Op) : (s.step op).Linked := by
  have hcases : ∀ i c, (s.step op).checks[i]? = some c →
      (c.signalled = false ↔ (s.step op).live = some i) ∧
        ((s.step op).live = some i → c.generation = (s.step op).generation) := by
    intro i c hc
    rcases step_old_or_new hc with ⟨old, hold⟩ | ⟨l, t, rfl, hok⟩
    · -- an old check: its signal is kept up or fires, as the session's is
      have hlt : i < s.checks.length := (List.getElem?_eq_some_iff.1 hold).1
      obtain ⟨state, hstep⟩ := step_check hold op
      rw [hc] at hstep
      obtain rfl := Option.some.inj hstep
      have hlive := h.live_iff i old hold
      refine ⟨?_, fun hl => ?_⟩
      · rw [step_live_iff hlt]
        cases hsup : s.supersedes op <;> cases hsig : old.signalled <;> simp_all
      · obtain ⟨hl, hsup⟩ := (step_live_iff hlt op).1 hl
        have hnot : op.isStart = false := by
          cases op with
          | start l t => cases hsup
          | cancel | wait _ _ _ | drop _ | accept _ => rfl
        rw [step_generation, hnot]
        exact h.current i old hold hl
    · -- the new check
      obtain ⟨hlive, hgen, hnew⟩ := step_start hok
      rw [hc] at hnew
      obtain rfl := Option.some.inj hnew
      exact ⟨⟨fun _ => hlive, fun _ => rfl⟩, fun _ => hgen.symm⟩
  exact ⟨fun i c hc => (hcases i c hc).1, fun i c hc => (hcases i c hc).2⟩

theorem Linked.foldl (h : s.Linked) (ops : List Op) : (ops.foldl Session.step s).Linked := by
  induction ops generalizing s with
  | nil => exact h
  | cons op ops ih => exact ih (h.step op)

theorem linked_after (ops : List Op) : (after ops).Linked := by
  refine Linked.foldl ⟨fun i c h => ?_, fun i c h => ?_⟩ ops
  · cases h
  · cases h

/-- The signal that the session keeps has fired after a run exactly if some operation of the run has used
    it or given it up. -/
theorem signalled_foldl (hs : s.Linked) (h : s.checks[i]? = some c) (hlive : s.live = some i)
    {ops : List Op} {c' : Check} (h' : (ops.foldl step s).checks[i]? = some c') :
    c'.signalled ↔ ∃ mid op rest, ops = mid ++ op :: rest ∧ (mid.foldl step s).supersedes op := by
  -- by the first operation: it fires the signal for good, or leaves it to the rest of the run
  induction ops generalizing s c with
  | nil =>
    rw [List.foldl_nil, h] at h'
    obtain rfl := Option.some.inj h'
    have hfalse := (hs.live_iff i c h).2 hlive
    constructor
    · intro htrue
      rw [hfalse] at htrue
      cases htrue
    · rintro ⟨mid, op, rest, heq, -⟩
      simp at heq
  | cons op ops ih =>
    have hlt : i < s.checks.length := (List.getElem?_eq_some_iff.1 h).1
    obtain ⟨state, hstep⟩ := step_check h op
    by_cases hsup : s.supersedes op
    · refine ⟨fun _ => ⟨[], op, ops, rfl, hsup⟩, fun _ => ?_⟩
      obtain ⟨c'', hc'', -, -, hstays⟩ := foldl_check hstep ops
      rw [List.foldl_cons, hc''] at h'
      obtain rfl := Option.some.inj h'
      exact hstays (by simp [hlive, hsup])
    · have hlive' : (s.step op).live = some i :=
        (step_live_iff hlt op).2 ⟨hlive, by simpa using hsup⟩
      rw [ih (hs.step op) hstep hlive' h']
      constructor
      · rintro ⟨mid, op', rest, rfl, hop⟩
        exact ⟨op :: mid, op', rest, rfl, hop⟩
      · rintro ⟨mid, op', rest, heq, hop⟩
        cases mid with
        | nil =>
          obtain ⟨rfl, -⟩ := List.cons.inj heq
          exact absurd hop hsup
        | cons x mid =>
          obtain ⟨rfl, rfl⟩ := List.cons.inj heq
          exact ⟨mid, op', rest, rfl, hop⟩

/-- A pending check says that it is superseded exactly if its signal has fired. -/
theorem wait_eq_superseded_iff (h : s.checks[i]? = some c) (hp : c.state = .pending) (l : Linter) (g : Nat) :
    (s.wait l i).1 = .outcome (.superseded g) ↔ g = c.generation ∧ c.signalled := by
  unfold wait
  simp only [h, hp, ne_eq, not_true_eq_false, if_false, Bool.not_false, Bool.and_true]
  cases c.signalled with
  | true => simp [eq_comm]
  | false =>
    simp only [Bool.false_eq_true, if_false, and_false, iff_false]
    split <;> simp

/-- **Cancellation by replacement.**  After any run at most one pending check is not superseded, and that
    one has the session's current generation.  A pending check was started in the run; and a wait for it
    that sees a fired signal first says that it is superseded, with the generation its start opened,
    exactly if since then there was another start, a cancellation, or an acceptance of findings of the
    generation that was current at that time. -/
theorem superseded_by_replacement (ops : List Op) :
    (∀ (i : Nat) (c : Check), (after ops).checks[i]? = some c → c.state = .pending → c.signalled = false →
      c.generation = (after ops).generation ∧
        ∀ (j : Nat) (c' : Check), (after ops).checks[j]? = some c' → c'.state = .pending →
          c'.signalled = false → j = i) ∧
    ∀ (i : Nat) (c : Check), (after ops).checks[i]? = some c → c.state = .pending →
      (∃ pre l t post, StartedAt ops i pre l t post) ∧
      ∀ pre l t post, StartedAt ops i pre l t post → ∀ (l' : Linter) (g : Nat),
        ((after ops).wait l' i).1 = .outcome (.superseded g) ↔
          g = (after pre).generation + 1 ∧
            ∃ mid op rest, post = mid ++ op :: rest ∧
              (after (pre ++ .start l t :: mid)).supersedes op := by
  have hlinked := linked_after ops
  refine ⟨fun i c hc _ hsig => ⟨?_, fun j c' hc' _ hsig' => ?_⟩, fun i c hc hp => ⟨exists_startedAt hc, ?_⟩⟩
  · exact hlinked.current i c hc ((hlinked.live_iff i c hc).1 hsig)
  · -- both signals are the one that the session keeps
    have hi := (hlinked.live_iff i c hc).1 hsig
    have hj := (hlinked.live_iff j c' hc').1 hsig'
    exact Option.some.inj (hj.symm.trans hi)
  · intro pre l t post hstart l' g
    obtain ⟨hlive, -, hnew⟩ := step_start hstart.succeeds
    have hc' := hc
    rw [hstart.after_eq] at hc'
    have hfired := signalled_foldl ((linked_after pre).step _) hnew hlive hc'
    have hmid : ∀ mid, after (pre ++ .start l t :: mid) = mid.foldl step ((after pre).step (.start l t)) := by
      intro mid
      rw [after_append, List.foldl_cons]
    simp only [← hmid] at hfired
    rw [wait_eq_superseded_iff hc hp, (hstart.check hc).1, hfired]

/-- A start that fails supersedes the check before it; the check after that is superseded once findings
    of its own generation are accepted, although it is still waited for. -/
theorem superseded_by_replacement_failed_start :
    let lint : Linter := { program := "lint" }
    let gone : Linter := { program := "lint", refusal := some .notFound }
    let ops : List Op := [.start lint "a".toList, .start gone "b".toList]
    let ops' : List Op := ops ++ [.start lint "c".toList, .accept (.finished 3 [])]
    (after ops).checks = [⟨1, "a".toList, true, .pending⟩] ∧
      ((after ops).wait lint 0).1 = .outcome (.superseded 1) ∧
      (after ops').checks[1]? = some ⟨3, "c".toList, true, .pending⟩ ∧
      ((after ops').wait lint 1).1 = .outcome (.superseded 3) := by
  intro lint gone ops ops'
  have hchecks : (after ops).checks = [⟨1, "a".toList, true, .pending⟩] := by decide +kernel
  have hcheck' : (after ops').checks[1]? = some ⟨3, "c".toList, true, .pending⟩ := by decide +kernel
  have hstart : StartedAt ops 0 [] lint "a".toList [.start gone "b".toList] := ⟨rfl, rfl⟩
  have hstart' : StartedAt ops' 1 ops lint "c".toList [.accept (.finished 3 [])] := ⟨rfl, by decide +kernel⟩
  have hfirst := ((superseded_by_replacement ops).2 0 _ (by rw [hchecks]; rfl) rfl).2 _ _ _ _ hstart lint 1
  have hsecond := ((superseded_by_replacement ops').2 1 _ hcheck' rfl).2 _ _ _ _ hstart' lint 3
  refine ⟨hchecks, hfirst.2 ⟨rfl, [], _, [], rfl, rfl⟩, hcheck', hsecond.2 ⟨?_, [], _, [], rfl, ?_⟩⟩
  · decide +kernel
  · decide +kernel

end Session

end BlockScript
