/-
  The order in which siblings are written does not matter.

  Two trees are reorderings of each other if one comes from the other by permuting siblings on any of its
  levels.  Then every sibling has a partner with the same literal, followed by a reordering of its level
  (`Reordered.partner`).  What a level takes does not speak of an order, so partners are taken for each other
  (`Takes.reordered`), and a run goes through the same steps on both trees (`Matches.reordered`).

  That needs siblings which can be told apart on every level.  A check where case counts leaves no others.
  Where case is ignored a check compares lower-case forms, but literals are compared under case folding:
  `ς` and `σ` pass as two literals and are found in each other's place, and then the first one written wins
  (`sigmas_depend_on_order`).

  The main result is `paint_reordered`.
-/
import BlockScript.Proofs.KeywordRuns

namespace BlockScript

variable {ignoreCase : Bool}

/-! ## Reorderings -/

/-- Whether siblings come from others by permuting siblings, their own or those of levels behind them. -/
inductive Branches.Reordered : Branches → Branches → Prop
  | nil : Reordered .nil .nil
  | leaf {l : Text} {rest rest' : Branches} : Reordered rest rest' → Reordered (.leaf l rest) (.leaf l rest')
  | branch {l : Text} {colour : Colour} {anywhere : Bool} {children children' rest rest' : Branches} :
      Reordered children children' → Reordered rest rest' →
      Reordered (.branch l colour anywhere children rest) (.branch l colour anywhere children' rest')
  | perm {bs bs' : Branches} : bs.toList.Perm bs'.toList → Reordered bs bs'
  | trans {bs bs' bs'' : Branches} : Reordered bs bs' → Reordered bs' bs'' → Reordered bs bs''

theorem Branches.Reordered.symm {bs bs' : Branches} (h : bs.Reordered bs') : bs'.Reordered bs := by
  induction h with
  | nil => exact .nil
  | leaf _ ih => exact .leaf ih
  | branch _ _ ihchildren ihrest => exact .branch ihchildren ihrest
  | perm hp => exact .perm hp.symm
  | trans _ _ ih ih' => exact ih'.trans ih

/-- Whether a level comes from another by permuting siblings on it or on levels below. -/
structure KeywordTree.Reordered (t t' : KeywordTree) : Prop where
  colour : t.colour = t'.colour
  anywhere : t.anywhere = t'.anywhere
  children : t.children.Reordered t'.children

theorem KeywordTree.Reordered.refl (t : KeywordTree) : t.Reordered t := ⟨rfl, rfl, .perm (.refl _)⟩

theorem KeywordTree.Reordered.symm {t t' : KeywordTree} (h : t.Reordered t') : t'.Reordered t :=
  ⟨h.colour.symm, h.anywhere.symm, h.children.symm⟩

theorem KeywordTree.Reordered.trans {t t' t'' : KeywordTree} (h : t.Reordered t') (h' : t'.Reordered t'') :
    t.Reordered t'' :=
  ⟨h.colour.trans h'.colour, h.anywhere.trans h'.anywhere, h.children.trans h'.children⟩

/-- Whether two branches have one literal and reorderings of one level behind it. -/
structure Branch.Partner (b b' : Branch) : Prop where
  literal : b.literal = b'.literal
  next : Option.Rel KeywordTree.Reordered b.next b'.next

theorem Branch.Partner.refl (b : Branch) : b.Partner b := by
  refine ⟨rfl, ?_⟩
  cases b.next with
  | none => exact .none
  | some n => exact .some (.refl n)

theorem Branch.Partner.trans {b b' b'' : Branch} (h : b.Partner b') (h' : b'.Partner b'') : b.Partner b'' := by
  refine ⟨h.literal.trans h'.literal, ?_⟩
  obtain ⟨l, n⟩ := b
  obtain ⟨l', n'⟩ := b'
  obtain ⟨l'', n''⟩ := b''
  obtain ⟨-, hnext⟩ := h
  obtain ⟨-, hnext'⟩ := h'
  cases hnext with
  | none =>
    cases hnext'
    exact .none
  | some hn =>
    cases hnext' with
    | some hn' => exact .some (hn.trans hn')

/-- **Every sibling has a partner in a reordering.** -/
theorem Branches.Reordered.partner {bs bs' : Branches} (h : bs.Reordered bs') {b : Branch} (hb : b ∈ bs.toList) :
    ∃ b' ∈ bs'.toList, b.Partner b' := by
  induction h generalizing b with
  | nil => cases hb
  | @leaf l rest rest' _ ih =>
    rcases List.mem_cons.1 hb with rfl | hb
    · exact ⟨⟨l, none⟩, List.mem_cons_self .., .refl _⟩
    · obtain ⟨b', hb', hpartner⟩ := ih hb
      exact ⟨b', List.mem_cons_of_mem _ hb', hpartner⟩
  | @branch l colour anywhere children children' rest rest' hchildren _ _ ih =>
    rcases List.mem_cons.1 hb with rfl | hb
    · exact ⟨⟨l, some ⟨colour, anywhere, children'⟩⟩, List.mem_cons_self .., rfl, .some ⟨rfl, rfl, hchildren⟩⟩
    · obtain ⟨b', hb', hpartner⟩ := ih hb
      exact ⟨b', List.mem_cons_of_mem _ hb', hpartner⟩
  | perm hp => exact ⟨b, hp.subset hb, .refl b⟩
  | trans _ _ ih ih' =>
    obtain ⟨b', hb', hpartner⟩ := ih hb
    obtain ⟨b'', hb'', hpartner'⟩ := ih' hb'
    exact ⟨b'', hb'', hpartner.trans hpartner'⟩

namespace KeywordTree

variable {t t' : KeywordTree} {line : Text} {cursor p stop : Nat} {b : Branch}

theorem Reordered.reaches {l : Text} (h : t.Reordered t') :
    t.Reaches ignoreCase line cursor p stop l ↔ t'.Reaches ignoreCase line cursor p stop l := by
  simp only [Reaches, context, h.anywhere]

/-- Every level of a reordering is a reordering of a level. -/
theorem Reordered.level {s' : KeywordTree} (h : t.Reordered t') (hs : t'.Level s') :
    ∃ s, t.Level s ∧ s.Reordered s' := by
  induction hs with
  | top => exact ⟨t, .top, h⟩
  | @under s' n' b' _ hb' hnext' ih =>
    obtain ⟨s, hs, hsame⟩ := ih
    obtain ⟨b, hb, -, hnext⟩ := hsame.children.symm.partner hb'
    rw [hnext'] at hnext
    cases hn : b.next with
    | none =>
      rw [hn] at hnext
      cases hnext
    | some n =>
      rw [hn] at hnext
      cases hnext with
      | some hsame' => exact ⟨n, hs.under hb hn, hsame'.symm⟩

/-- A reordering that passes its check tells siblings apart if the level does. -/
theorem TellsApart.reordered (hapart : t.TellsApart ignoreCase) (h : t.Reordered t')
    (hcheck : t'.children.check ignoreCase [] = .ok ()) : t'.TellsApart ignoreCase := by
  have hdistinct := Branches.check_distinct hcheck
  refine ⟨hdistinct.ne_nil, fun b hb b' hb' hsize hfront => ?_⟩
  obtain ⟨x, hx, hpartner⟩ := h.children.symm.partner hb
  obtain ⟨x', hx', hpartner'⟩ := h.children.symm.partner hb'
  rw [hpartner.literal, hpartner'.literal] at hsize hfront
  obtain rfl := hapart.unique x hx x' hx' hsize hfront
  apply List.inj_on_of_nodup_map hdistinct.nodup hb hb'
  rw [hpartner.literal, hpartner'.literal]

/-! ## What is taken -/

/-- **Partners are taken for each other.** -/
theorem Takes.reordered (htakes : t.Takes ignoreCase line cursor p stop b) (h : t.Reordered t')
    (hapart : t'.TellsApart ignoreCase) :
    ∃ b', b.Partner b' ∧ t'.Takes ignoreCase line cursor p stop b' := by
  obtain ⟨b', hb', hpartner⟩ := h.children.partner htakes.mem
  refine ⟨b', hpartner, hb', ?_, ?_, ?_⟩
  · rw [← hpartner.literal]
    exact h.reaches.1 htakes.reaches
  · intro x' hx' p' stop' hreaches
    obtain ⟨x, hx, hsame⟩ := h.children.symm.partner hx'
    rw [hsame.literal] at hreaches
    rw [← h.anywhere]
    exact htakes.column x hx p' stop' (h.reaches.2 hreaches)
  · intro x' hx' stop' hreaches
    obtain ⟨x, hx, hsame⟩ := h.children.symm.partner hx'
    rw [hsame.literal] at hreaches
    rcases htakes.longest x hx stop' (h.reaches.2 hreaches) with rfl | hlt
    · -- the partner of what is taken is not one of two
      left
      have hliteral : x'.literal = b'.literal := hsame.literal.trans hpartner.literal
      exact hapart.unique x' hx' b' hb' (congrArg Text.size hliteral) (hliteral ▸ List.prefix_rfl)
    · right
      rwa [hsame.literal, ← hpartner.literal]

/-- **A reordering goes through the same steps.** -/
theorem Matches.reordered {o o' : Option KeywordTree} {spans : List Span} {last : Nat}
    (hmatches : Matches ignoreCase line o cursor spans last) (h : Option.Rel Reordered o o')
    (hapart : ∀ t' ∈ o', ∀ s, t'.Level s → s.TellsApart ignoreCase) :
    Matches ignoreCase line o' cursor spans last := by
  induction hmatches generalizing o' with
  | leaf =>
    cases h
    exact .leaf
  | missed hmisses =>
    cases h with
    | @some _ t' hsame =>
      refine .missed fun b' hb' p stop hreaches => ?_
      obtain ⟨b, hb, hpartner⟩ := hsame.children.symm.partner hb'
      rw [hpartner.literal] at hreaches
      exact hmisses b hb p stop (hsame.reaches.2 hreaches)
  | once hany htakes _ ih =>
    cases h with
    | @some _ t' hsame =>
      obtain ⟨b', hpartner, htakes'⟩ := htakes.reordered hsame (hapart t' rfl t' .top)
      have hbelow := ih hpartner.next fun n' hn' s hs =>
        hapart t' rfl s ((Level.top.under htakes'.mem hn').trans hs)
      rw [hsame.colour]
      exact .once (hsame.anywhere ▸ hany) htakes' hbelow
  | again hany htakes _ _ ihbelow ihothers =>
    cases h with
    | @some _ t' hsame =>
      obtain ⟨b', hpartner, htakes'⟩ := htakes.reordered hsame (hapart t' rfl t' .top)
      have hbelow := ihbelow hpartner.next fun n' hn' s hs =>
        hapart t' rfl s ((Level.top.under htakes'.mem hn').trans hs)
      rw [hsame.colour]
      exact .again (hsame.anywhere ▸ hany) htakes' hbelow (ihothers (.some hsame) hapart)

/-- A reordering runs alike on every line. -/
theorem run_reordered (h : t.Reordered t') (hapart : ∀ s, t.Level s → s.TellsApart ignoreCase)
    (hcheck : t'.children.check ignoreCase [] = .ok ()) (line : Text) (cursor : Nat) :
    t.ordered.run ignoreCase line cursor = t'.ordered.run ignoreCase line cursor := by
  have hapart' : ∀ s', t'.Level s' → s'.TellsApart ignoreCase := by
    intro s' hs'
    obtain ⟨s, hs, hsame⟩ := h.level hs'
    exact (hapart s hs).reordered hsame (hs'.check hcheck)
  have hmatches : Matches ignoreCase line (some t') cursor _ _ :=
    (matches_run t line cursor hapart).reordered (.some h) fun x hx => Option.mem_some.1 hx ▸ hapart'
  exact ((run_eq_iff hapart').2 hmatches).symm

end KeywordTree

/-! ## What is painted -/

/-- **The order of siblings does not matter.**  If two reorderings of a tree compile, and if where case is
    ignored the siblings on every level can be told apart, then both paint every part of every text alike. -/
theorem Matcher.paint_reordered {t t' : KeywordTree} {m m' : Matcher} (h : t.Reordered t')
    (hm : compile t ignoreCase = .ok m) (hm' : compile t' ignoreCase = .ok m')
    (hapart : ignoreCase = true → ∀ s, t.Level s → s.TellsApart true) (text : Text) (start stop : Nat) :
    m.paint text start stop = m'.paint text start stop := by
  have hlevels : ∀ s, t.Level s → s.TellsApart ignoreCase := by
    intro s hs
    cases ignoreCase with
    | false => exact tellsApart_of_compile hm nofun hs
    | true => exact hapart rfl s hs
  obtain ⟨-, rfl⟩ := compile_eq_ok hm
  obtain ⟨hcheck, rfl⟩ := compile_eq_ok hm'
  have hrow : ∀ p row, paintRow ⟨t.ordered, ignoreCase⟩ p row = paintRow ⟨t'.ordered, ignoreCase⟩ p row := by
    intro p row
    rw [paintRow, paintRow]
    exact congrArg (fun run => run.1.map (Span.shift p)) (KeywordTree.run_reordered h hlevels hcheck row 0)
  simp only [paint, hrow]

/-- Declarations whose second words follow in one order. -/
def declarations : KeywordTree :=
  ⟨.keyword, false, .branch "let".toList .type false (.leaf "mut".toList (.leaf "rec".toList .nil))
    (.leaf "use".toList .nil)⟩

/-- The declarations written the other way round, on both levels. -/
def declarationsBackwards : KeywordTree :=
  ⟨.keyword, false, .leaf "use".toList
    (.branch "let".toList .type false (.leaf "rec".toList (.leaf "mut".toList .nil)) .nil)⟩

theorem declarations_paint_alike : ∃ m m', Matcher.compile declarations true = .ok m ∧
    Matcher.compile declarationsBackwards true = .ok m' ∧ m.tree ≠ m'.tree ∧
    m.paint "Let rec\nuse".toList 0 11 = m'.paint "Let rec\nuse".toList 0 11 := by
  have hm : Matcher.compile declarations true = .ok ⟨declarations.ordered, true⟩ := rfl
  have hm' : Matcher.compile declarationsBackwards true = .ok ⟨declarationsBackwards.ordered, true⟩ := rfl
  have hbelow : Branches.Reordered (.leaf "mut".toList (.leaf "rec".toList .nil))
      (.leaf "rec".toList (.leaf "mut".toList .nil)) := .perm (.swap ..)
  have hsame : declarations.Reordered declarationsBackwards :=
    ⟨rfl, rfl, .trans (.branch hbelow (.leaf .nil)) (.perm (.swap ..))⟩
  refine ⟨_, _, hm, hm', by decide, ?_⟩
  apply Matcher.paint_reordered hsame hm hm'
  exact fun hic s hs => Matcher.tellsApart_of_compile hm (fun _ => by decide) hs

/-- Two literals that case folding takes for one, the second with a level behind it. -/
def sigmas : KeywordTree :=
  ⟨.keyword, false, .leaf ['ς'] (.branch ['σ'] .type false (.leaf ['x'] .nil) .nil)⟩

/-- The same two literals the other way round. -/
def sigmasBackwards : KeywordTree :=
  ⟨.keyword, false, .branch ['σ'] .type false (.leaf ['x'] .nil) (.leaf ['ς'] .nil)⟩

/-- **Siblings that only case folding takes for one depend on their order.**  Both orders compile where case
    is ignored, and what follows `σ` is painted only if it is written first. -/
theorem sigmas_depend_on_order : sigmas.Reordered sigmasBackwards ∧
    ∃ m m', Matcher.compile sigmas true = .ok m ∧ Matcher.compile sigmasBackwards true = .ok m' ∧
      m.paint "σ x".toList 0 4 = [⟨.keyword, 0, 2⟩] ∧
      m'.paint "σ x".toList 0 4 = [⟨.keyword, 0, 2⟩, ⟨.type, 3, 4⟩] := by
  have hfinal : sigmas.ordered.find true "σ x".toList 0 = some ⟨0, 2, ⟨['ς'], none⟩⟩ := rfl
  have hsigma : sigmasBackwards.ordered.find true "σ x".toList 0 =
      some ⟨0, 2, ⟨['σ'], some ⟨.type, false, .leaf ['x'] .nil⟩⟩⟩ := rfl
  have hbelow : KeywordTree.find ⟨.type, false, .leaf ['x'] .nil⟩ true "σ x".toList 2 =
      some ⟨3, 4, ⟨['x'], none⟩⟩ := rfl
  have hpaint := Matcher.paint_row ⟨sigmas.ordered, true⟩ (t := "σ x".toList) (by decide) (by decide)
  have hpaint' := Matcher.paint_row ⟨sigmasBackwards.ordered, true⟩ (t := "σ x".toList) (by decide) (by decide)
  rw [KeywordTree.run_once rfl hfinal rfl] at hpaint
  rw [KeywordTree.run_once rfl hsigma (KeywordTree.run_once rfl hbelow rfl)] at hpaint'
  exact ⟨⟨rfl, rfl, .perm (.swap ..)⟩, _, _, rfl, rfl, hpaint, hpaint'⟩

end BlockScript
