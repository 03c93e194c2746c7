/-
  Painting with slices that may fail.

  Painting asks for the rows of a window, walks over each row for its strings and comments, and over the row
  cut out for its keywords.  Here each slice and each look at a byte may fail.

  1. The rows start where the line of the window's start does, and each ends at a break or with the text
     (`rowsIn?_eq`).
  2. The walk over a row goes from character to character, and over a string to its end or to the end of the
     row, whichever comes first (`literalsOfRow?_eq`).
  3. A keyword found from a place between two characters ends at such a place (`find_isBoundary`), so the
     cursor never stands inside a character (`run?_eq`).

  With that no query on a text misses, whatever offset it is asked for: `queries_never_miss`, the main result.
-/
import BlockScript.Proofs.CheckedQueries
import BlockScript.Proofs.KeywordRuns
import BlockScript.Proofs.PaintedLiterals

namespace BlockScript

/-! ## Rows -/

namespace Text

/-- The row at offset `s.1` behind the rows `s.2`, in a window that ends at offset `stop`. -/
def rowStep? (t : Text) (stop : Nat) (s : Nat × List (Nat × Text)) :
    Option (Nat × List (Nat × Text) ⊕ List (Nat × Text)) :=
  (t.lineEnd? s.1).bind fun lineEnd =>
    (t.slice? s.1 lineEnd).map fun row =>
      if stop ≤ lineEnd then .inr (s.2 ++ [(s.1, trimRow row)])
      else .inl (lineEnd + 1, s.2 ++ [(s.1, trimRow row)])

/-- The rows that a range of offsets touches. -/
def rowsIn? (t : Text) (start stop : Nat) : Option (List (Nat × Text)) :=
  (t.lineStart? (min start (min stop t.size))).bind fun pos => Step.loop (t.rowStep? (min stop t.size)) (pos, [])

/-- The rows of a text at offset `p` that start up to offset `stop`, without carriage returns. -/
def rowsUpTo (stop p : Nat) (t : Text) : List (Nat × Text) :=
  ((rowsFrom p t).filter (·.1 ≤ stop)).map fun r => (r.1, trimRow r.2)

theorem rowsUpTo_break {w : Text} (hw : ∀ c ∈ w, c ≠ '\n') {stop p : Nat} (hp : p ≤ stop) (rest : Text) :
    rowsUpTo stop p (w ++ ['\n'] ++ rest) = (p, trimRow w) :: rowsUpTo stop (p + size w + 1) rest := by
  rw [rowsUpTo, rowsFrom_break hw, List.filter_cons_of_pos (by simpa using hp), size_append]
  rfl

/-- Past the end of the window there is no row. -/
theorem rowsUpTo_past {stop p : Nat} (h : stop < p) (t : Text) : rowsUpTo stop p t = [] := by
  rw [rowsUpTo, List.filter_eq_nil_iff.2, List.map_nil]
  intro r hr
  have := le_of_mem_rowsFrom hr
  simp only [decide_eq_true_eq]
  omega

theorem rowsUpTo_noBreak {w : Text} (hw : ∀ c ∈ w, c ≠ '\n') {stop p : Nat} (hp : p ≤ stop) :
    rowsUpTo stop p w = [(p, trimRow w)] := by
  rw [rowsUpTo, rowsFrom_noBreak hw, List.filter_cons_of_pos (by simpa using hp)]
  rfl

/-- A look at a row that is followed by a break or by nothing. -/
theorem rowStep?_append (before : Text) {w after : Text} (hw : ∀ c ∈ w, c ≠ '\n')
    (hafter : after = [] ∨ after.head? = some '\n') (stop : Nat) (rows : List (Nat × Text)) :
    (before ++ (w ++ after)).rowStep? stop (before.size, rows) =
      some (if stop ≤ before.size + size w then .inr (rows ++ [(before.size, trimRow w)])
        else .inl (before.size + size w + 1, rows ++ [(before.size, trimRow w)])) := by
  have htake : (w ++ after).takeWhile (· ≠ '\n') = w := by
    rcases hafter with rfl | hhead
    · rw [List.append_nil]
      exact List.takeWhile_eq_self_iff.2 (by simpa using hw)
    · obtain ⟨rest, rfl⟩ := List.head?_eq_some_iff.1 hhead
      exact takeWhile_ne_append hw rest
  have hrow : (before ++ (w ++ after)).slice? before.size (before.size + size w) = some w :=
    HasAt.slice? ⟨before, after, rfl, rfl⟩
  rw [rowStep?, lineEnd?, rest?_append, Option.map_some, Option.bind_some, htake, hrow]
  rfl

/-- From the start of a line the rows are listed up to the end of the window. -/
theorem loop_rowStep {stop : Nat} (before rest : Text) (rows : List (Nat × Text))
    (hle : before.size ≤ stop) (hstop : stop ≤ size (before ++ rest)) :
    Step.loop ((before ++ rest).rowStep? stop) (before.size, rows) =
      some (rows ++ rowsUpTo stop before.size rest) := by
  induction rest using line_induction generalizing before rows with
  | nil =>
    have hnone : ∀ c ∈ ([] : Text), c ≠ '\n' := by simp
    have hstep := rowStep?_append before hnone (.inl rfl) stop rows
    rw [List.append_nil] at hstop
    rw [if_pos (by rw [size_nil]; omega)] at hstep
    rw [rowsUpTo_noBreak hnone hle]
    exact loop_inr hstep
  | line line rest _ hline _ ih =>
    rcases hline with ⟨w, hw, rfl⟩ | ⟨hw, rfl⟩
    · have hstep : (before ++ (w ++ '\n' :: rest)).rowStep? stop (before.size, rows) = _ :=
        rowStep?_append before hw (.inr rfl) stop rows
      have htext : before ++ (w ++ ['\n'] ++ rest) = before ++ (w ++ '\n' :: rest) := by simp
      rw [rowsUpTo_break hw hle, htext]
      by_cases hend : stop ≤ before.size + size w
      · rw [if_pos hend] at hstep
        rw [rowsUpTo_past (by omega)]
        exact loop_inr hstep
      · rw [if_neg hend] at hstep
        have hsize : size (before ++ (w ++ ['\n'])) = before.size + size w + 1 := by
          rw [size_append, size_append]
          rfl
        have hrest := ih (before ++ (w ++ ['\n'])) (rows ++ [(before.size, trimRow w)]) (by omega)
          (by simpa only [List.append_assoc] using hstop)
        rw [hsize, List.append_assoc, List.append_assoc] at hrest
        rw [loop_inl hstep]
        simpa using hrest
    · rw [List.append_nil] at hstop ⊢
      have hstep := rowStep?_append before hw (.inl rfl) stop rows
      rw [List.append_nil, if_pos (by rwa [← size_append])] at hstep
      rw [rowsUpTo_noBreak hw hle]
      exact loop_inr hstep

/-- No row that ends before a line counts, so only the rows from that line on do. -/
theorem filter_rowsFrom_append {f : Nat × Text → Bool} {before : Text} (hl : before.EndsLine) (p : Nat)
    (hf : ∀ r : Nat × Text, r.1 + size r.2 < p + before.size → f r = false) (rest : Text) :
    (rowsFrom p (before ++ rest)).filter f = (rowsFrom (p + before.size) rest).filter f := by
  induction before using line_induction generalizing p with
  | nil => rfl
  | line line before hne hline _ ih =>
    rcases hline.of_endsLine hne hl ['\n'] with ⟨w, hw, rfl⟩ | ⟨-, hnone⟩
    · have hbreak : size (w ++ ['\n']) = size w + 1 := size_append w ['\n']
      have hsize : p + size (w ++ ['\n'] ++ before) = p + size (w ++ ['\n']) + before.size := by
        rw [size_append _ before, Nat.add_assoc]
      rw [hsize] at hf ⊢
      have hfirst : ¬f (p, w) = true := by
        rw [hf (p, w) (by show p + size w < _; omega)]
        exact Bool.false_ne_true
      rw [List.append_assoc, rowsFrom_break hw, List.filter_cons_of_neg hfirst, ih hl.right _ hf]
    · cases hnone

/-- What ends in a line break stays when all behind the last break is dropped. -/
theorem size_le_trimEnd {a : Text} (hlast : a.getLast? = some '\n') (t : Text) :
    a.size ≤ size (trimEnd (· ≠ '\n') (a ++ t)) := by
  obtain ⟨a, rfl⟩ := List.getLast?_eq_some_iff.1 hlast
  rw [trimEnd, List.reverse_append, List.dropWhile_append]
  split
  · rw [List.reverse_append, List.reverse_singleton, List.singleton_append,
      List.dropWhile_cons_of_neg (by simp), List.reverse_cons, List.reverse_reverse]
  · rw [List.reverse_append, List.reverse_reverse, size_append (a ++ ['\n'])]
    exact Nat.le_add_right ..

/-- A line that starts at or before an offset starts at or before the line of that offset. -/
theorem le_lineStart_of_le {a t : Text} (hl : EndsLine a) {q : Nat} (h : a.size ≤ q) :
    a.size ≤ lineStart (a ++ t) q := by
  by_cases hq : q < size (a ++ t)
  · exact le_lineStart hl h hq
  · rcases hl with rfl | hlast
    · exact Nat.zero_le _
    · have hbreak : '\n' ∈ a ++ t := List.mem_append_left _ (List.mem_of_getLast? hlast)
      have hstart : (findLine q 0 (0, a ++ t) (a ++ t ++ [])).1 = _ :=
        findLine_front (a ++ t) (by omega) (by simp)
      rw [List.append_nil, if_pos hbreak, Nat.zero_add] at hstart
      rw [lineStart, lineAt, hstart]
      exact size_le_trimEnd hlast t

/-- **The rows of a window are listed for every window.** -/
theorem rowsIn?_eq (t : Text) (start stop : Nat) : t.rowsIn? start stop = some (t.rowsIn start stop) := by
  generalize hp : min start (min stop t.size) = p
  obtain ⟨before, ht, hsize, hends⟩ := t.lineAt_split p
  have hstart := lineAt_start_le t p
  generalize (lineAt t p).2 = rest at ht
  have hrows := loop_rowStep before rest [] (by omega : before.size ≤ min stop t.size) (by rw [← ht]; omega)
  rw [← ht, List.nil_append] at hrows
  -- rows of lines before do not reach the window
  have hfront := filter_rowsFrom_append hends 0 (f := t.touches start stop) (fun r hr => by
    simp only [touches, hp, Bool.and_eq_false_iff, decide_eq_false_iff_not]
    omega) rest
  rw [Nat.zero_add, ← ht] at hfront
  rw [rowsIn?, hp, lineStart?_eq, Option.bind_some, lineStart, ← hsize, hrows, rowsIn_eq, hfront, rowsUpTo]
  congr 2
  refine List.filter_congr fun r hr => ?_
  -- a row from that line on does not end before the window, or another line would start in between
  have hreach : p ≤ r.1 + size r.2 := by
    by_contra hlt
    have hle := le_of_mem_rowsFrom hr
    obtain ⟨gone, after, hat, hgone, -, -, rfl | hhead⟩ := rowAt_of_mem_rowsFrom hends hr
    · have hsum := congrArg size (ht.trans hat)
      rw [List.append_nil, size_append] at hsum
      omega
    · obtain ⟨after, rfl⟩ := List.head?_eq_some_iff.1 hhead
      have hnext : EndsLine (gone ++ (r.2 ++ ['\n'])) := .inr (by simp)
      have hbreak : size (gone ++ (r.2 ++ ['\n'])) = r.1 + size r.2 + 1 := by
        rw [size_append, size_append, hgone]
        rfl
      have hlater := le_lineStart_of_le (t := after) hnext (by rw [hbreak]; omega : _ ≤ p)
      have htext : gone ++ (r.2 ++ ['\n']) ++ after = t := by rw [ht, hat]; simp
      rw [htext, hbreak, lineStart, ← hsize] at hlater
      omega
  simp only [touches, hp, hreach, decide_true, Bool.true_and]

/-- A row of a window stands in the text. -/
theorem hasAt_of_mem_rowsIn {t : Text} {start stop : Nat} {r : Nat × Text} (h : r ∈ t.rowsIn start stop) :
    t.HasAt r.1 r.2 := by
  rw [rowsIn_eq] at h
  obtain ⟨row, hrow, rfl⟩ := List.mem_map.1 h
  obtain ⟨before, after, ht, hsize, -⟩ := Painter.rowAt_of_mem (List.mem_filter.1 hrow).1
  obtain ⟨ending, hending, -⟩ := trimRow_append row.2
  refine ⟨before, ending ++ after, ?_, hsize⟩
  rw [ht, ← List.append_assoc (trimRow row.2), ← hending]

end Text

/-! ## Strings and comments -/

namespace Text

/-- What is done at offset `s.1`, where a character of class `k` stands, in a row that ends at offset `stop`
    and behind the spans `s.2`. -/
def literalIn? (t : Text) (stop : Nat) (s : Nat × List Span) (k : CharClass) :
    Option (Nat × List Span ⊕ List Span) :=
  if k = .comment then some (.inr (s.2 ++ [⟨.comment, s.1, stop⟩]))
  else if k = .quote then
    (t.stringEnd? s.1).map fun e => .inl (min e stop, s.2 ++ [⟨.string, s.1, min e stop⟩])
  else (t.rest? s.1).map fun rest => .inl (s.1 + rest.head?.elim 1 Char.utf8Size, s.2)

/-- Of the front of a text and the front of a row at its start, the smaller is the front of the row. -/
theorem min_size_take (row after : Text) (n : Nat) :
    min (size ((row ++ after).take n)) row.size = size (row.take n) := by
  rw [List.take_append, size_append]
  rcases Nat.le_total n row.length with hle | hle
  · have hnone : n - row.length = 0 := by omega
    have := size_take_le row n
    rw [hnone, List.take_zero, size_nil]
    omega
  · rw [List.take_of_length_le hle]
    omega

/-- A string is passed over, or as much of it as the row holds. -/
theorem literalIn?_quote {c : Char} (hc : CharClass.of c = .quote) (before cs after : Text)
    (spans : List Span) {stop : Nat}
    (hstop : before.size + size ((c :: cs).take (stringRest c (cs ++ after) + 1)) = stop) :
    (before ++ c :: (cs ++ after)).literalIn? (before.size + size (c :: cs)) (before.size, spans) .quote =
      some (.inl (stop, spans ++ [⟨.string, before.size, stop⟩])) := by
  have hmin := min_size_take (c :: cs) after (stringRest c (cs ++ after) + 1)
  rw [List.cons_append, List.take_succ_cons] at hmin
  rw [literalIn?, if_neg (by decide), if_pos rfl, stringEnd?_append (Dialect.toNat_lt_of_class hc (.inl rfl)),
    Option.map_some, Nat.add_min_add_left, hmin, hstop]

theorem literalIn?_other {k : CharClass} (h1 : k ≠ .comment) (h2 : k ≠ .quote) (before : Text) (c : Char)
    (cs : Text) (stop : Nat) (spans : List Span) :
    (before ++ c :: cs).literalIn? stop (before.size, spans) k =
      some (.inl (before.size + c.utf8Size, spans)) := by
  rw [literalIn?, if_neg h1, if_neg h2, rest?_append]
  rfl

end Text

namespace Painter

variable (P : Painter) (t : Text)

/-- The place at offset `s.1` of a row that ends at offset `stop`, behind the spans `s.2`. -/
def literalStep? (stop : Nat) (s : Nat × List Span) : Option (Nat × List Span ⊕ List Span) :=
  if s.1 < stop then (P.dialect.classAt? t s.1).bind (t.literalIn? stop s) else some (.inr s.2)

/-- The strings and comments of a row of a text. -/
def literalsOfRow? (p : Nat) (row : Text) : Option (List Span) :=
  Step.loop (P.literalStep? t (p + row.size)) (p, [])

/-- From any place in a row the walk finds what is left of the row to paint. -/
theorem loop_literalStep (before row after : Text) (spans : List Span) :
    Step.loop (P.literalStep? (before ++ (row ++ after)) (before.size + row.size)) (before.size, spans) =
      some (spans ++ P.dialect.paintLiterals before.getLast? before.size row.length (row ++ after)) := by
  -- by the length of what is left: a string is passed over in one step
  induction hn : row.length using Nat.strongRecOn generalizing before row spans with
  | _ n ih =>
    cases row with
    | nil =>
      subst hn
      refine loop_inr ?_
      rw [literalStep?, if_neg (by simp), List.length_nil, Dialect.paintLiterals_zero, List.append_nil]
    | cons c cs =>
      -- behind a part `u` of the row the walk goes on with what is left of it
      have hnext {u v : Text} (hu : u ≠ []) (huv : c :: cs = u ++ v) (spans : List Span) :
          Step.loop (P.literalStep? (before ++ (c :: cs ++ after)) (before.size + Text.size (c :: cs)))
            (before.size + u.size, spans) =
          some (spans ++ P.dialect.paintLiterals u.getLast? (before.size + u.size) v.length (v ++ after)) := by
        have hlen := congrArg List.length huv
        have hpos := List.length_pos_iff.2 hu
        rw [List.length_append] at hlen
        have hrest := ih v.length (by omega) (before ++ u) v spans rfl
        rw [List.getLast?_append_of_ne_nil _ hu, Text.size_append] at hrest
        rw [huv, Text.size_append]
        simpa only [List.append_assoc, Nat.add_assoc] using hrest
      have hstep : P.literalStep? (before ++ (c :: cs ++ after)) (before.size + Text.size (c :: cs))
          (before.size, spans) = (before ++ (c :: cs ++ after)).literalIn? (before.size + Text.size (c :: cs))
            (before.size, spans) (P.dialect.classHere before.getLast? (c :: (cs ++ after))) := by
        have hpos : 0 < Text.size (c :: cs) := Text.size_pos (List.cons_ne_nil c cs)
        rw [literalStep?, if_pos (by show before.size < _; omega), Dialect.classAt?_eq, Dialect.classAt_append,
          Option.bind_some, List.cons_append]
      subst hn
      rw [List.length_cons, List.cons_append]
      rw [List.cons_append] at hstep hnext
      by_cases hcomment : P.dialect.classHere before.getLast? (c :: (cs ++ after)) = .comment
      · rw [hcomment] at hstep
        have htake : (c :: (cs ++ after)).take (cs.length + 1) = c :: cs := by simp
        rw [Dialect.paintLiterals_comment hcomment, htake]
        exact loop_inr hstep
      by_cases hquote : P.dialect.classHere before.getLast? (c :: (cs ++ after)) = .quote
      · have hc : CharClass.of c = .quote := Dialect.of_eq_of_classHere hquote (by decide)
        obtain ⟨m, hm⟩ : ∃ m, m = min (stringRest c (cs ++ after) + 1) (cs.length + 1) := ⟨_, rfl⟩
        have hle : m ≤ (c :: cs).length := by rw [List.length_cons]; omega
        have htake : (c :: (cs ++ after)).take m = (c :: cs).take m := List.take_append_of_le_length hle
        have hdrop : (c :: (cs ++ after)).drop m = (c :: cs).drop m ++ after :=
          List.drop_append_of_le_length hle
        have hshown : (c :: cs).take (stringRest c (cs ++ after) + 1) = (c :: cs).take m := by
          rw [hm, List.take_eq_take_min]
          rfl
        have hne : (c :: cs).take m ≠ [] := by
          obtain ⟨k, rfl⟩ : ∃ k, m = k + 1 := ⟨m - 1, by omega⟩
          exact List.cons_ne_nil c _
        rw [hquote, Text.literalIn?_quote hc _ _ _ _ (congrArg (before.size + Text.size ·) hshown)] at hstep
        rw [Dialect.paintLiterals_quote hquote _ _ hm, htake, hdrop, loop_inl hstep,
          hnext hne (List.take_append_drop m _).symm, List.length_drop, List.append_assoc]
        rfl
      · rw [Text.literalIn?_other hcomment hquote] at hstep
        rw [Dialect.paintLiterals_cons hcomment hquote, loop_inl hstep]
        exact hnext (List.cons_ne_nil c []) rfl spans

/-- **The strings and comments of a row are found.** -/
theorem literalsOfRow?_eq {t row : Text} {p : Nat} (h : t.HasAt p row) :
    P.literalsOfRow? t p row = some (P.literalsOfRow t p row) := by
  obtain ⟨before, after, rfl, rfl⟩ := h
  rw [literalsOfRow?, loop_literalStep, literalsOfRow, Text.splitAt?_size_append]
  rfl

end Painter

/-! ## Keywords -/

/-- Whether a hit ends between two characters of the text at offset `p`, or with it. -/
def Hit.StopsIn (h : Hit) (p : Nat) (rest : Text) : Prop :=
  ∃ w after : Text, rest = w ++ after ∧ h.stop = p + w.size

section

variable {ignoreCase : Bool} {bs : List Branch} {before : Option Char} {p : Nat} {rest : Text} {h : Hit}

theorem Hit.StopsIn.cons {c : Char} (hs : h.StopsIn (p + c.utf8Size) rest) : h.StopsIn p (c :: rest) := by
  obtain ⟨w, after, rfl, hstop⟩ := hs
  exact ⟨c :: w, after, rfl, by rw [hstop, Text.size_cons, Nat.add_assoc]⟩

theorem hitHere_stopsIn (he : hitHere ignoreCase bs before p rest = some h) : h.StopsIn p rest := by
  obtain ⟨b, -, rfl⟩ := Option.map_eq_some_iff.1 he
  exact ⟨_, _, (List.take_append_drop b.literal.length rest).symm, rfl⟩

theorem hitAnywhere_stopsIn (he : hitAnywhere ignoreCase bs before p rest = some h) : h.StopsIn p rest := by
  induction rest generalizing before p with
  | nil => cases he
  | cons c cs ih =>
    rw [hitAnywhere] at he
    split at he
    · next hit hhere => exact hitHere_stopsIn (he ▸ hhere)
    · exact (ih he).cons

theorem hitAfterBlanks_stopsIn (he : hitAfterBlanks ignoreCase bs before p rest = some h) :
    h.StopsIn p rest := by
  induction rest generalizing before p with
  | nil => cases he
  | cons c cs ih =>
    rw [hitAfterBlanks] at he
    split at he
    · next hit hlater =>
      split at hlater
      · exact (ih (he ▸ hlater)).cons
      · cases hlater
    · exact hitHere_stopsIn he

/-- A level without literals hits nothing. -/
theorem hitAnywhere_nil (ignoreCase : Bool) (before : Option Char) (p : Nat) (rest : Text) :
    hitAnywhere ignoreCase [] before p rest = none := by
  induction rest generalizing before p with
  | nil => rfl
  | cons c cs ih => exact ih _ _

theorem hitAfterBlanks_nil (ignoreCase : Bool) (before : Option Char) (p : Nat) (rest : Text) :
    hitAfterBlanks ignoreCase [] before p rest = none := by
  induction rest generalizing before p with
  | nil => rfl
  | cons c cs ih =>
    rw [hitAfterBlanks, ih, ite_self]
    rfl

end

namespace KeywordTree

/-- The hit of a level on a line from the offset `cursor` on. -/
def find? (t : KeywordTree) (ignoreCase : Bool) (line : Text) (cursor : Nat) : Option (Option Hit) :=
  if t.isEmpty ∨ line.size < cursor then some none
  else
    (line.splitAt? cursor).map fun cut =>
      if t.anywhere then hitAnywhere ignoreCase t.children.toList cut.1.getLast? cursor cut.2
      else hitAfterBlanks ignoreCase t.children.toList none cursor cut.2

variable {t : KeywordTree} {ignoreCase : Bool} {line : Text} {cursor : Nat} {hit : Hit}

theorem find_of_isEmpty (h : t.isEmpty) (ignoreCase : Bool) (line : Text) (cursor : Nat) :
    t.find ignoreCase line cursor = none := by
  have hnil : t.children = .nil := of_decide_eq_true h
  rw [find]
  split
  · rfl
  · rw [hnil]
    split
    · exact hitAnywhere_nil ..
    · exact hitAfterBlanks_nil ..

/-- What is found from a place between two characters ends at such a place. -/
theorem find_isBoundary (h : t.find ignoreCase line cursor = some hit) : line.isBoundary hit.stop := by
  rw [find] at h
  split at h
  · cases h
  · next before rest hs =>
    obtain ⟨rfl, rfl⟩ := Text.splitAt?_append hs
    obtain ⟨w, after, rfl, hstop⟩ : hit.StopsIn before.size rest := by
      split at h
      · exact hitAnywhere_stopsIn h
      · exact hitAfterBlanks_stopsIn h
    rw [hstop]
    exact Text.HasAt.isBoundary_stop ⟨before, after, rfl, rfl⟩

theorem find?_eq (h : line.isBoundary cursor) :
    t.find? ignoreCase line cursor = some (t.find ignoreCase line cursor) := by
  obtain ⟨⟨before, rest⟩, hs⟩ := Option.isSome_iff_exists.1 h
  by_cases hempty : t.isEmpty
  · rw [find?, if_pos (.inl hempty), find_of_isEmpty hempty]
  · obtain ⟨rfl, rfl⟩ := Text.splitAt?_append hs
    have hin : ¬(before ++ rest).size < before.size := by
      rw [Text.size_append]
      omega
    rw [find?, if_neg (not_or.2 ⟨hempty, hin⟩), hs, find, hs]
    rfl

/-- A hit is one of the literals of its level. -/
theorem mem_of_find? (h : t.find? ignoreCase line cursor = some (some hit)) :
    hit.branch ∈ t.children.toList := by
  by_cases hcut : line.isBoundary cursor
  · rw [find?_eq hcut] at h
    exact (find_within (Option.some.inj h)).1
  · have hnone : line.splitAt? cursor = none := Option.not_isSome_iff_eq_none.1 hcut
    rw [find?, hnone] at h
    split at h <;> cases h

/-- Where a level is after a hit and what is painted `below` it, behind the spans `s.1`. -/
def took (t : KeywordTree) (s : List Span × Nat) (hit : Hit) (below : List Span × Nat) :
    List Span × Nat ⊕ List Span × Nat :=
  if t.anywhere then .inl (s.1 ++ ⟨t.colour, hit.start, hit.stop⟩ :: below.1, below.2)
  else .inr (s.1 ++ ⟨t.colour, hit.start, hit.stop⟩ :: below.1, below.2)

/-- The spans of a level and of those that follow it on a line from the offset `cursor` on, and where the
    cursor ends. -/
def run? (t : KeywordTree) (ignoreCase : Bool) (line : Text) (cursor : Nat) : Option (List Span × Nat) :=
  Step.loop (fun s : List Span × Nat =>
    match _h : t.find? ignoreCase line s.2 with
    | none => none
    | some none => some (.inr s)
    | some (some hit) =>
      match _n : hit.branch.next with
      | none => some (t.took s hit ([], hit.stop))
      | some next => (next.run? ignoreCase line hit.stop).map (t.took s hit)) ([], cursor)
termination_by t.children.count
decreasing_by exact Branches.count_lt_of_mem (mem_of_find? _h) _n

/-- What a level that follows a literal paints, if there is one. -/
def runNext? (o : Option KeywordTree) (ignoreCase : Bool) (line : Text) (cursor : Nat) :
    Option (List Span × Nat) :=
  o.elim (some ([], cursor)) fun t => t.run? ignoreCase line cursor

/-- A look for the next hit of a level, with the spans and the cursor as they are. -/
def hitStep? (t : KeywordTree) (ignoreCase : Bool) (line : Text) (s : List Span × Nat) :
    Option (List Span × Nat ⊕ List Span × Nat) :=
  (t.find? ignoreCase line s.2).bind fun found =>
    found.elim (some (.inr s)) fun hit => (runNext? hit.branch.next ignoreCase line hit.stop).map (t.took s hit)

theorem run?_eq_loop (t : KeywordTree) (ignoreCase : Bool) (line : Text) (cursor : Nat) :
    t.run? ignoreCase line cursor = Step.loop (t.hitStep? ignoreCase line) ([], cursor) := by
  rw [run?]
  congr 1
  funext s
  rw [hitStep?]
  split
  · next hfind => rw [hfind]; rfl
  · next hfind => rw [hfind]; rfl
  · next hit hfind =>
    rw [hfind, Option.bind_some, Option.elim_some, runNext?]
    split
    · next hnext => rw [hnext]; rfl
    · next hnext => rw [hnext]; rfl

/-- **A level is matched without a miss**, and leaves the cursor between two characters. -/
theorem run?_eq (t : KeywordTree) (ignoreCase : Bool) {line : Text} {cursor : Nat}
    (h : line.isBoundary cursor) :
    t.run? ignoreCase line cursor = some (t.run ignoreCase line cursor) ∧
      line.isBoundary (t.run ignoreCase line cursor).2 := by
  induction hn : t.children.count using Nat.strongRecOn generalizing t cursor with
  | _ n ih =>
    rw [run?_eq_loop]
    refine loop_eq_some (s := ([], cursor)) (I := fun s => line.isBoundary s.2)
      (Q := fun found => line.isBoundary found.2)
      (fun s => (s.1 ++ (t.run ignoreCase line s.2).1, (t.run ignoreCase line s.2).2))
      (fun s => line.size - s.2) ?_ h
    rintro ⟨spans, cursor⟩ hcut
    dsimp only at hcut ⊢
    rw [hitStep?, find?_eq hcut, Option.bind_some]
    cases hfind : t.find ignoreCase line cursor with
    | none =>
      rw [run_of_find_none hfind, Option.elim_none, List.append_nil]
      exact .inl ⟨rfl, hcut⟩
    | some hit =>
      obtain ⟨hmem, hlt, hle⟩ := find_within hfind
      -- the level that follows the hit has fewer literals
      have hbelow : runNext? hit.branch.next ignoreCase line hit.stop =
          some (runNext hit.branch.next ignoreCase line hit.stop) ∧
          line.isBoundary (runNext hit.branch.next ignoreCase line hit.stop).2 := by
        cases hnext : hit.branch.next with
        | none => exact ⟨rfl, find_isBoundary hfind⟩
        | some next =>
          exact ih _ (hn ▸ Branches.count_lt_of_mem hmem hnext) next (find_isBoundary hfind) rfl
      have hgrows := le_runNext hit.branch.next ignoreCase line hit.stop
      rw [Option.elim_some, hbelow.1, Option.map_some, run_of_find_some hfind, took]
      dsimp only
      by_cases hany : t.anywhere
      · rw [if_pos hany, if_pos hany]
        exact .inr ⟨_, rfl, hbelow.2, by show _ - _ < _ - _; omega, by simp⟩
      · rw [if_neg hany, if_neg hany]
        exact .inl ⟨rfl, hbelow.2⟩

end KeywordTree

/-- The spans of a row that starts at `offset`. -/
def Matcher.paintRow? (m : Matcher) (offset : Nat) (row : Text) : Option (List Span) :=
  (m.tree.run? m.ignoreCase row 0).map fun found => found.1.map (Span.shift offset)

theorem Matcher.paintRow?_eq (m : Matcher) (offset : Nat) (row : Text) :
    m.paintRow? offset row = some (m.paintRow offset row) := by
  have hfront : row.HasAt 0 [] := ⟨[], row, rfl, rfl⟩
  rw [paintRow?, (m.tree.run?_eq m.ignoreCase hfront.isBoundary_start).1]
  rfl

/-! ## The whole window -/

/-- What `f` gives for all members of a list, in turn; fails where it fails for one of them. -/
def gather? {α : Type} (f : α → Option (List Span)) : List α → Option (List Span)
  | [] => some []
  | x :: xs => (f x).bind fun spans => (gather? f xs).map (spans ++ ·)

theorem gather?_eq {α : Type} {f : α → Option (List Span)} {g : α → List Span} {xs : List α}
    (h : ∀ x ∈ xs, f x = some (g x)) : gather? f xs = some (xs.flatMap g) := by
  induction xs with
  | nil => rfl
  | cons x xs ih =>
    rw [gather?, h x (List.mem_cons_self ..), ih fun y hy => h y (List.mem_cons_of_mem _ hy)]
    rfl

namespace Painter

variable (P : Painter)

/-- The spans that overlap the range from `start` to `stop`, from the `literals` and the `keywords` of its
    rows. -/
def shown (start stop : Nat) (literals keywords : List Span) : List Span :=
  let visible := keywords.filter fun k => !literals.any (·.overlaps k.start k.stop)
  (((literals ++ visible).filter (·.overlaps start stop)).map (·.clip start stop)).mergeSort Span.le

/-- The spans that overlap the range from `start` to `stop`, cut to it, in order. -/
def paint? (t : Text) (start stop : Nat) : Option (List Span) :=
  (t.rowsIn? start stop).bind fun rows =>
    (gather? (fun r => P.literalsOfRow? t r.1 r.2) rows).bind fun literals =>
      (gather? (fun r => gather? (·.paintRow? r.1 r.2) P.matchers) rows).map (shown start stop literals)

/-- **A text is painted in every window.** -/
theorem paint?_eq (t : Text) (start stop : Nat) : P.paint? t start stop = some (P.paint t start stop) := by
  have hliterals : ∀ r ∈ t.rowsIn start stop,
      P.literalsOfRow? t r.1 r.2 = some (P.literalsOfRow t r.1 r.2) :=
    fun r hr => P.literalsOfRow?_eq (Text.hasAt_of_mem_rowsIn hr)
  have hkeywords : ∀ r ∈ t.rowsIn start stop, gather? (·.paintRow? r.1 r.2) P.matchers =
      some (P.matchers.flatMap (·.paintRow r.1 r.2)) :=
    fun r _ => gather?_eq fun m _ => m.paintRow?_eq r.1 r.2
  rw [paint?, Text.rowsIn?_eq, Option.bind_some, gather?_eq hliterals, Option.bind_some,
    gather?_eq hkeywords]
  rfl

end Painter

/-! ## Every query -/

/-- Whether each query on a text has an answer when slices and looks at bytes may fail, the one that it has
    when they cannot.  Lines are read, tokens looked for and constructs asked for at offset `p`, tokens with
    the scanner `s`, and the painter `H` paints between `start` and `stop`. -/
structure Answered (P : Profile) (H : Painter) (b : Buffer) (s : Scanner) (p start stop : Nat) : Prop where
  line : P.dialect.tokensAt? b.text p =
    some (P.dialect.tokensOf (P.dialect.lexLine b.text p).lexemes, (P.dialect.lexLine b.text p).stop)
  next : s.next? P.dialect b p = some (s.next P.dialect b p)
  prev : s.prev? P.dialect b p = some (s.prev P.dialect b p)
  lineStart : b.text.lineStart? p = some (b.text.lineStart p)
  findMatch : P.findMatch? b p = some (P.findMatch b p)
  matching : P.matching? b p = some (P.matching b p)
  context : P.context? b p = some (P.context b p)
  indentation : P.indentation? b p = some (P.indentation b p)
  indentOf : P.indentOf? b p = some (P.indentOf b p)
  closingText : P.closingText? b p = some (P.closingText b p)
  renameEdit : P.renameEdit? b p = some (P.renameEdit b p)
  reindent : P.reindent? b.text = some (P.reindent b.text)
  nameMismatches : P.nameMismatches? b.text = some ((P.nameMismatches b.text).map Profile.withNames)
  paint : H.paint? b.text start stop = some (H.paint b.text start stop)

/-- **No query misses**, on any text and for any offset or range: past the end, inverted or inside a
    character. -/
theorem queries_never_miss (P : Profile) (H : Painter) (hm : P.dialect.marker.head? ≠ some '\n') (b : Buffer)
    (s : Scanner) (p start stop : Nat) : Answered P H b s p start stop where
  line := Dialect.tokensAt?_eq hm b.text p
  next := Scanner.next?_eq hm b s p
  prev := Scanner.prev?_eq hm b s p
  lineStart := b.text.lineStart?_eq p
  findMatch := (Profile.findMatch?_eq hm p).1
  matching := Profile.matching?_eq hm p
  context := Profile.context?_eq hm p
  indentation := Profile.indentation?_eq hm p
  indentOf := Profile.indentOf?_eq hm p
  closingText := Profile.closingText?_eq hm p
  renameEdit := Profile.renameEdit?_eq hm p
  reindent := Profile.reindent?_eq hm b.text
  nameMismatches := Profile.nameMismatches?_eq hm b.text
  paint := H.paint?_eq b.text start stop

/-- Offset 1 lies inside the first character and 9 past the end, and from 4 to 2 nothing can be cut out. -/
theorem queries_never_miss_inside_character :
    let t : Text := "é\n\"ü".toList
    t.rest? 1 = none ∧ t.byte? 9 = none ∧ t.slice? 4 2 = none ∧
      (({} : Profile).dialect.marker.head? ≠ some '\n' ∧
        Answered {} ⟨{}, defaultTrees.map (⟨·, true⟩)⟩ (.ofText t) {} 1 4 2) ∧
      Answered {} ⟨{}, defaultTrees.map (⟨·, true⟩)⟩ (.ofText t) {} 9 1 9 :=
  ⟨by decide, by decide, by decide, ⟨by decide, queries_never_miss _ _ (by decide) _ _ _ _ _⟩,
    queries_never_miss _ _ (by decide) _ _ _ _ _⟩

end BlockScript
