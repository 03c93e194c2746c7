/-
  Matching there and back.

  A keyword's partner is searched for from the keyword alone, forward from an opener and backward from a
  closer, and each search passes over what it cannot close in its own way.  Where constructs cross, the
  partner of a partner need not be the keyword one started from (`matching_back_misses`).

  What holds of every script is that the two do not run past each other: the partner has a partner, and
  this one stands between the two.  It is the keyword itself as long as nothing crosses on the way
  (`matching_back`).

  Both searches are the search over a word of brackets: the openers and closers among the tokens
  (`closerIn_eq_seek`, `openerIn_eq_seek`).
-/
import BlockScript.Proofs.BracketWords
import BlockScript.Proofs.ScanLimit

namespace BlockScript

-- neither roles nor partners are worked out below
attribute [local irreducible] Profile.accepts

/-! ## The brackets among the tokens -/

/-- The token after `previous` as a bracket, if it opens or closes a construct. -/
def Token.bracket? (previous : Option Token) (t : Token) : Option Bracket :=
  match t.roleAfter previous with
  | .opener => some (.opener t)
  | .closer => some (.closer t)
  | _ => none

/-- The openers and closers among the tokens after `previous`. -/
def brackets (previous : Option Token) : List Token → List Bracket
  | [] => []
  | t :: ts => (t.bracket? previous).toList ++ brackets (some t) ts

variable {previous : Option Token} {s t : Token} {ts : List Token}

theorem bracket?_opener (h : t.roleAfter previous = .opener) : t.bracket? previous = some (.opener t) := by
  rw [Token.bracket?, h]

theorem bracket?_closer (h : t.roleAfter previous = .closer) : t.bracket? previous = some (.closer t) := by
  rw [Token.bracket?, h]

theorem bracket?_other (ho : t.roleAfter previous ≠ .opener) (hc : t.roleAfter previous ≠ .closer) :
    t.bracket? previous = none := by
  rw [Token.bracket?]
  split
  · exact absurd ‹_› ho
  · exact absurd ‹_› hc
  · rfl

theorem eq_of_bracket?_opener (h : t.bracket? previous = some (.opener s)) :
    s = t ∧ t.roleAfter previous = .opener := by
  rw [Token.bracket?] at h
  split at h
  · next ho =>
    cases h
    exact ⟨rfl, ho⟩
  · cases h
  · cases h

theorem eq_of_bracket?_closer (h : t.bracket? previous = some (.closer s)) :
    s = t ∧ t.roleAfter previous = .closer := by
  rw [Token.bracket?] at h
  split at h
  · cases h
  · next hc =>
    cases h
    exact ⟨rfl, hc⟩
  · cases h

/-- The token before those that follow `t :: ts`. -/
theorem getLast?_cons_or (previous : Option Token) (t : Token) (ts : List Token) :
    (t :: ts).getLast?.or previous = ts.getLast?.or (some t) := by
  rw [List.getLast?_cons]
  cases ts.getLast? <;> rfl

theorem brackets_append (previous : Option Token) (ts us : List Token) :
    brackets previous (ts ++ us) = brackets previous ts ++ brackets (ts.getLast?.or previous) us := by
  induction ts generalizing previous with
  | nil => rfl
  | cons t ts ih => rw [getLast?_cons_or, List.cons_append, brackets, brackets, ih, List.append_assoc]

/-- **A bracket splits the tokens** into those in front of it and those behind it. -/
theorem brackets_split {x : Bracket} {u v : List Bracket} (h : brackets previous ts = u ++ x :: v) :
    ∃ mid t rest, ts = mid ++ t :: rest ∧ brackets previous mid = u ∧ brackets (some t) rest = v ∧
      t.bracket? (mid.getLast?.or previous) = some x := by
  induction ts generalizing previous u with
  | nil => simp [brackets] at h
  | cons t ts ih =>
    rw [brackets] at h
    by_cases hhere : t.bracket? previous = some x ∧ u = []
    · obtain ⟨hx, rfl⟩ := hhere
      rw [hx] at h
      exact ⟨[], t, ts, rfl, rfl, (List.cons.inj h).2, hx⟩
    · -- the bracket stands behind the first token
      obtain ⟨u', rfl, htail⟩ : ∃ u', u = (t.bracket? previous).toList ++ u' ∧
          brackets (some t) ts = u' ++ x :: v := by
        cases hb : t.bracket? previous with
        | none => exact ⟨u, rfl, by rwa [hb] at h⟩
        | some y =>
          rw [hb] at h
          cases u with
          | nil => exact absurd ⟨by rw [hb, (List.cons.inj h).1], rfl⟩ hhere
          | cons y' u =>
            obtain ⟨rfl, htail⟩ := List.cons.inj h
            exact ⟨u, rfl, htail⟩
      obtain ⟨mid, s, rest, rfl, hmid, hrest, hx⟩ := ih htail
      exact ⟨t :: mid, s, rest, rfl, by rw [brackets, hmid], hrest, by rwa [getLast?_cons_or]⟩

/-- A bracket is one of the tokens. -/
theorem opener_mem_of_brackets (h : Bracket.opener s ∈ brackets previous ts) : s ∈ ts := by
  obtain ⟨u, v, huv⟩ := List.append_of_mem h
  obtain ⟨mid, t, rest, rfl, -, -, hx⟩ := brackets_split huv
  obtain ⟨rfl, -⟩ := eq_of_bracket?_opener hx
  exact List.mem_append_right _ (List.mem_cons_self ..)

theorem closer_mem_of_brackets (h : Bracket.closer s ∈ brackets previous ts) : s ∈ ts := by
  obtain ⟨u, v, huv⟩ := List.append_of_mem h
  obtain ⟨mid, t, rest, rfl, -, -, hx⟩ := brackets_split huv
  obtain ⟨rfl, -⟩ := eq_of_bracket?_closer hx
  exact List.mem_append_right _ (List.mem_cons_self ..)

/-! ## The searches over the brackets -/

namespace Profile

variable {P : Profile} {b : Buffer} {o c : Token} {pre mid post rev : List Token}

/-- **The search for a closer is the search over the brackets ahead.** -/
theorem closerIn_eq_seek (o : Token) (above : List Token) (previous : Option Token) (ts : List Token) :
    P.closerIn previous (above ++ [o]) ts = seek P.accepts o above (brackets previous ts) := by
  induction ts generalizing previous above with
  | nil => rfl
  | cons t ts ih =>
    by_cases ho : t.roleAfter previous = .opener
    · rw [closerIn, ho, brackets, bracket?_opener ho]
      exact ih (t :: above) (some t)
    · by_cases hc : t.roleAfter previous = .closer
      · rw [closerIn_closer hc, brackets, bracket?_closer hc, Option.toList_some, List.singleton_append]
        rcases popFirst_around (P.accepts · t) above o with
          ⟨z, rest, hpop, htakes⟩ | ⟨hpop, hfits, htakes⟩ | ⟨hpop, hfits, hpasses⟩
        · rw [htakes [], seek_takes hpop, ← ih rest]
          cases rest <;> rfl
        · rw [htakes [], seek_finds hpop hfits]
        · rw [hpasses [], seek_skips hpop hfits, ← ih above]
          rfl
      · rw [brackets, bracket?_other ho hc, Option.toList_none, List.nil_append, ← ih above, closerIn]
        split
        · exact absurd ‹_› ho
        · exact absurd ‹_› hc
        · rfl

/-- **The search for an opener is the search over the brackets behind, seen from the other side.** -/
theorem openerIn_eq_seek (c : Token) (bs : List Token) (m : Option (Token × Token)) (rev : List Token) :
    P.openerIn ⟨bs ++ [c], m⟩ rev =
      seek (flip P.accepts) c bs (mirror (brackets none rev.reverse)) := by
  induction rev generalizing bs m with
  | nil => rfl
  | cons t rev ih =>
    have hword : brackets none (t :: rev).reverse =
        brackets none rev.reverse ++ (t.bracket? rev.head?).toList := by
      rw [List.reverse_cons, brackets_append, List.getLast?_reverse, Option.or_none, brackets, brackets,
        List.append_nil]
    rw [hword, mirror_append, openerIn]
    by_cases ho : t.roleAfter rev.head? = .opener
    · rw [bracket?_opener ho, ho]
      show _ = seek (flip P.accepts) c bs (.closer t :: mirror (brackets none rev.reverse))
      rcases popFirst_around (P.accepts t) bs c with
        ⟨z, rest, hpop, htakes⟩ | ⟨hpop, hfits, htakes⟩ | ⟨hpop, hfits, hpasses⟩
      · rw [seek_flip_takes hpop, meet_takes (htakes []), ← ih rest]
        exact if_neg (by simp)
      · rw [seek_flip_finds hpop hfits, meet_takes (htakes [])]
        rfl
      · rw [seek_flip_skips hpop hfits, meet_leaves (hpasses []), ← ih bs m]
        exact if_neg (by simp)
    · by_cases hc : t.roleAfter rev.head? = .closer
      · rw [bracket?_closer hc, hc]
        exact ih (t :: bs) m
      · rw [bracket?_other ho hc, Option.toList_none]
        show _ = seek (flip P.accepts) c bs (mirror (brackets none rev.reverse))
        have hmeet : P.meet ⟨bs ++ [c], m⟩ (t.roleAfter rev.head?) t = (⟨bs ++ [c], m⟩, false) := by
          unfold meet
          split
          · exact absurd ‹_› hc
          · exact absurd ‹_› ho
          · rfl
        rw [hmeet, ← ih bs m]
        exact if_neg (by simp)

/-! ## Partners -/

/-- Without a bound on the visits the keyword that starts at an offset is the one asked about there. -/
theorem classify_start (h0 : P.layout.maxVisits = 0) {t : Token}
    (h : P.tokenize b.text = pre ++ t :: post) : P.classify b t.start = t := by
  have hgap : P.dialect.Gap b.text t.start pre.reverse (t :: post) :=
    .of_start (by rw [List.reverse_reverse]; exact h)
  have hnext := Scanner.next_spec (P.scanner_sound b) t.start
  rw [classify, (hnext.of_unlimited (scanner_budget h0)).1, hgap.tokenAfter, List.head?_cons,
    Option.getD_some]

theorem findMatch_start (h0 : P.layout.maxVisits = 0) {t : Token}
    (h : P.tokenize b.text = pre ++ t :: post) :
    P.findMatch b t.start = P.matchIn pre.reverse t post :=
  findMatch_eq_in h0 (.of_start (by rw [List.reverse_reverse]; exact h))

/-- The partner of an opener. -/
theorem matching_opener (h0 : P.layout.maxVisits = 0) (h : P.tokenize b.text = pre ++ o :: post)
    (ho : o.roleAfter pre.getLast? = .opener) :
    P.matching b o.start = (seek P.accepts o [] (brackets (some o) post)).map (·.start) := by
  rw [matching, classify_start h0 h, findMatch_start h0 h, matchIn_opener (by rwa [List.head?_reverse]),
    Option.map_map, ← closerIn_eq_seek, List.nil_append]
  refine Option.map_congr fun c _ => ?_
  exact if_pos rfl

/-- The partner of a closer. -/
theorem matching_closer (h0 : P.layout.maxVisits = 0) (h : P.tokenize b.text = pre ++ c :: post)
    (hc : c.kind.role = .closer) :
    P.matching b c.start = (seek (flip P.accepts) c [] (mirror (brackets none pre))).map (·.start) := by
  have hsearch := openerIn_eq_seek (P := P) c [] none pre.reverse
  rw [List.reverse_reverse] at hsearch
  rw [matching, classify_start h0 h, findMatch_start h0 h, matchIn_closer hc, Option.map_map, ← hsearch]
  refine Option.map_congr fun o ho => if_neg ?_
  show o ≠ c
  -- the opener stands before the closer
  rintro rfl
  have hmem := List.mem_reverse.1 (openerIn_mem ho)
  have := (P.dialect.tokenize_apart h).1 _ hmem
  omega

/-- The word between an opener and a closer, and the searches from both that start with it. -/
theorem matching_between (h0 : P.layout.maxVisits = 0)
    (h : P.tokenize b.text = pre ++ o :: (mid ++ c :: post))
    (ho : o.roleAfter pre.getLast? = .opener) (hc : c.kind.role = .closer) :
    (∃ v, P.matching b o.start =
        (seek P.accepts o [] (brackets (some o) mid ++ [.closer c] ++ v)).map (·.start)) ∧
      (∃ v, P.matching b c.start =
        (seek (flip P.accepts) c [] (mirror (brackets (some o) mid) ++ [.closer o] ++ v)).map (·.start)) ∧
      Bracket.closer c ∉ brackets (some o) mid ∧ Bracket.opener o ∉ brackets (some o) mid := by
  have hclose : ∀ previous, c.roleAfter previous = .closer := fun _ => Token.roleAfter_eq_closer.2 hc
  have h' : P.tokenize b.text = (pre ++ o :: mid) ++ c :: post := by rw [h]; simp
  have hapart := (P.dialect.tokenize_apart h').1
  refine ⟨⟨brackets (some c) post, ?_⟩, ⟨mirror (brackets none pre), ?_⟩, fun hmem => ?_, fun hmem => ?_⟩
  · rw [matching_opener h0 h ho, brackets_append, brackets, bracket?_closer (hclose _)]
    simp
  · have hword : brackets none (pre ++ o :: mid) =
        brackets none pre ++ .opener o :: brackets (some o) mid := by
      rw [brackets_append, Option.or_none, brackets, bracket?_opener ho]
      rfl
    rw [matching_closer h0 h' hc, hword, mirror_append, mirror_cons]
    simp [Bracket.turned]
  · have hbefore := hapart c (List.mem_append_right _ (List.mem_cons_of_mem _ (closer_mem_of_brackets hmem)))
    omega
  · have hbehind := (P.dialect.tokenize_apart h).2.2 o (List.mem_append_left _ (opener_mem_of_brackets hmem))
    omega

/-- The brackets up to a closer. -/
theorem brackets_snoc_closer (hc : c.kind.role = .closer) (o : Token) (mid : List Token) :
    brackets (some o) (mid ++ [c]) = brackets (some o) mid ++ [.closer c] := by
  rw [brackets_append, brackets, brackets, bracket?_closer (Token.roleAfter_eq_closer.2 hc)]
  rfl

/-- **Matching there and back.**  Without a bound on the searches, the partner of an opener is a closer
    behind it, which has a partner too: the opener, or another one between the two that accepts it.  The
    partner of a closer is an opener before it, which has a partner too: the closer, or another one
    between the two that it accepts.  It is the keyword one started from unless constructs cross between
    the two. -/
theorem matching_back (P : Profile) (b : Buffer) (h0 : P.layout.maxVisits = 0) (t : Token)
    (pre post : List Token) (htokens : P.tokenize b.text = pre ++ t :: post) :
    (t.roleAfter pre.getLast? = .opener → ∀ q, P.matching b t.start = some q →
      ∃ mid c rest, post = mid ++ c :: rest ∧ c.kind.role = .closer ∧ c.start = q ∧
        ∃ o ∈ t :: mid, P.accepts o c ∧ P.matching b q = some o.start ∧
          (crossing P.accepts t [] (brackets (some t) (mid ++ [c])) = false → o = t)) ∧
    (t.kind.role = .closer → ∀ q, P.matching b t.start = some q →
      ∃ rest o mid, pre = rest ++ o :: mid ∧ o.roleAfter rest.getLast? = .opener ∧ o.start = q ∧
        ∃ c ∈ mid ++ [t], P.accepts o c ∧ P.matching b q = some c.start ∧
          (crossing P.accepts o [] (brackets (some o) (mid ++ [t])) = false → c = t)) := by
  constructor
  · intro ho q hq
    rw [matching_opener h0 htokens ho] at hq
    obtain ⟨c, hseek, hstart⟩ := Option.map_eq_some_iff.1 hq
    obtain ⟨u, v, hword, hfound⟩ := seek_split hseek
    obtain ⟨mid, c', rest, rfl, rfl, -, hbracket⟩ := brackets_split hword
    obtain ⟨rfl, hrole⟩ := eq_of_bracket?_closer hbracket
    have hc := Token.roleAfter_eq_closer.1 hrole
    obtain ⟨-, ⟨v', hback⟩, hcw, how⟩ := matching_between h0 htokens ho hc
    obtain ⟨o, hmem, hacc, hsearch⟩ := seek_back hfound hcw
    refine ⟨mid, c, rest, rfl, hc, hstart, o, ?_, hacc, ?_, fun hcross => ?_⟩
    · rcases hmem with rfl | hmem
      · exact List.mem_cons_self ..
      · exact List.mem_cons_of_mem _ (opener_mem_of_brackets hmem)
    · rw [← hstart, hback, seek_append hsearch]
      rfl
    · rw [brackets_snoc_closer hc] at hcross
      rw [(seek_back_iff hcross hcw how).1 hfound] at hsearch
      exact (Option.some.inj hsearch).symm
  · intro hc q hq
    rw [matching_closer h0 htokens hc] at hq
    obtain ⟨o, hseek, hstart⟩ := Option.map_eq_some_iff.1 hq
    obtain ⟨u, v, hword, hfound⟩ := seek_split hseek
    have hword' : brackets none pre = mirror v ++ .opener o :: mirror u := by
      rw [← mirror_mirror (brackets none pre), hword, mirror_append, mirror_cons]
      simp [Bracket.turned]
    obtain ⟨rest, o', mid, rfl, -, hmid, hbracket⟩ := brackets_split hword'
    obtain ⟨rfl, ho⟩ := eq_of_bracket?_opener hbracket
    rw [Option.or_none] at ho
    have htokens' : P.tokenize b.text = rest ++ o :: (mid ++ t :: post) := by rw [htokens]; simp
    obtain ⟨⟨v', hback⟩, -, hcw, how⟩ := matching_between h0 htokens' ho hc
    have hu : u = mirror (brackets (some o) mid) := by rw [hmid, mirror_mirror]
    rw [hu] at hfound
    obtain ⟨c, hmem, hacc, hsearch⟩ := seek_ahead hfound how
    refine ⟨rest, o, mid, rfl, ho, hstart, c, ?_, hacc, ?_, fun hcross => ?_⟩
    · rcases hmem with rfl | hmem
      · exact List.mem_append_right _ (List.mem_singleton_self _)
      · exact List.mem_append_left _ (closer_mem_of_brackets hmem)
    · rw [← hstart, hback, seek_append hsearch]
      rfl
    · rw [brackets_snoc_closer hc] at hcross
      rw [(seek_back_iff hcross hcw how).2 hfound] at hsearch
      exact (Option.some.inj hsearch).symm

/-- The `if` is never closed and is passed over, by the `end` and by the search back alike; it fits nothing
    behind the `end`, so nothing crosses. -/
theorem matching_back_open_if :
    let P : Profile := { layout := { maxVisits := 0 } }
    let b := Buffer.ofText "while x\nbegin a\nif q then\nend a\nnext\n".toList
    P.matching b 0 = some 32 ∧ P.matching b 32 = some 0 := by
  intro P b
  have hrun : P.tokenize b.text = [] ++ ⟨.whileLoop, 0, 5, none⟩ :: (P.tokenize b.text).tail ∧
      P.matching b 0 = some 32 ∧
      crossing P.accepts ⟨.whileLoop, 0, 5, none⟩ [] (brackets (some ⟨.whileLoop, 0, 5, none⟩)
        ((P.tokenize b.text).tail.takeWhile (·.start ≤ 32))) = false := by
    decide +kernel
  obtain ⟨htokens, hmatch, hcross⟩ := hrun
  obtain ⟨mid, c, rest, hpost, -, hstart, o, -, -, hback, hsame⟩ :=
    (matching_back P b rfl _ _ _ htokens).1 (by rw [Token.roleAfter]; exact TokenKind.role_eq _) 32 hmatch
  -- the tokens up to the `next` are those that start at 32 or before
  have hsplit : (P.tokenize b.text).tail.takeWhile (·.start ≤ 32) = mid ++ [c] := by
    have htokens' : P.tokenize b.text = (⟨.whileLoop, 0, 5, none⟩ :: mid) ++ c :: rest := by
      rw [htokens, hpost]
      rfl
    obtain ⟨hmid, hc, hrest⟩ := P.dialect.tokenize_apart htokens'
    have hbefore : ∀ y ∈ mid, decide (y.start ≤ 32) = true := by
      intro y hy
      have := hmid y (List.mem_cons_of_mem _ hy)
      exact decide_eq_true (by omega)
    have hbehind : rest.takeWhile (·.start ≤ 32) = [] := by
      cases rest with
      | nil => rfl
      | cons y rest =>
        have := hrest y (List.mem_cons_self ..)
        have hlt : 32 < y.start := by omega
        exact List.takeWhile_cons_of_neg (by simpa using hlt)
    rw [hpost, List.takeWhile_append_of_pos hbefore, List.takeWhile_cons_of_pos (by simp [hstart]), hbehind]
  rw [hsplit] at hcross
  obtain rfl := hsame hcross
  exact ⟨hmatch, hback⟩

/-- Where constructs cross the partner of a partner may be another keyword.  On the way ahead from the
    first `while` the `end` drops the second one, and the `next` is left for the first; on the way back
    from the `next` the second `while` is the nearest that accepts it.  And on the way back from `end c` the
    `sub` takes the bare `end` and drops `end b`, so `end c` is left for the `begin`; on the way ahead the
    `begin` takes `end b`. -/
theorem matching_back_misses :
    let P : Profile := { layout := { maxVisits := 0 } }
    let b := Buffer.ofText "while x\nbegin a\nwhile y\nend a\nnext\n".toList
    let b' := Buffer.ofText "begin a\nsub\nend b\nend\nend c\n".toList
    (P.matching b 0 = some 30 ∧ P.matching b 30 = some 16) ∧
      (P.matching b' 22 = some 0 ∧ P.matching b' 0 = some 12) := by
  decide +kernel

end Profile

end BlockScript
