/-
  String literals: what is written with doubled quotes is read as one string.

  A content is put in quotes by doubling every quote of its own kind.  The scan of a string looks one character
  ahead and takes quotes in pairs, so in a run of quotes it depends on where the run began which of them belong
  together.  It begins behind the opening quote and takes each pair as it was written; so a quote it finds
  alone is the closing one.

  1. **One character** (`stringRest_written`): written, it is a pair or a character of its own, and the scan
     takes it as such, whatever follows.
  2. **A content** (`stringRest_doubled`), by induction: the scan takes all of it and goes on behind it.  No
     condition on what follows is needed, since a written content leaves no quote half taken.
  3. **The end**: behind a content a quote that no second one follows closes the string (`stringRest_closed`),
     and a line break or the end of the text leaves it open (`stringRest_open`).
  4. **A string is what its scan takes** (`readsString`): both scans end behind it, that over characters and
     that over bytes, and it is the first lexeme of a line that starts with it.

  The main result is `literal_reads_back`.  The lexer always takes the literal first, but a line comes out only
  if it ends, and a line break that opens a comment keeps it from doing so (`literal_before_stall`).
-/
import BlockScript.Proofs.CheckedLexing

namespace BlockScript

namespace Text

variable {q : Char} {content rest : Text}

/-! ## Putting a content in quotes -/

/-- A character as it is written between two quotes `q`. -/
def written (q c : Char) : Text := if c = q then [q, q] else [c]

/-- A content as it is written between two quotes `q`: with each `q` doubled. -/
def doubled (q : Char) (content : Text) : Text := content.flatMap (written q)

/-- A content behind the quote that opens it. -/
def opened (q : Char) (content : Text) : Text := q :: doubled q content

/-- A content between its quotes. -/
def literal (q : Char) (content : Text) : Text := q :: (doubled q content ++ [q])

/-! ## Scanning it -/

/-- A written character is taken whole, whatever follows it. -/
theorem stringRest_written (hq : q ≠ '\n') {c : Char} (hc : c ≠ '\n') (rest : Text) :
    stringRest q (written q c ++ rest) = (written q c).length + stringRest q rest := by
  by_cases hcq : c = q
  · -- both quotes of a pair are taken at once
    rw [written, if_pos hcq]
    simp only [List.cons_append, List.nil_append, stringRest, if_neg hq, if_pos]
    exact Nat.add_comm ..
  · rw [written, if_neg hcq]
    cases rest with
    | nil => simp [stringRest, hc]
    | cons c' cs =>
      simp only [List.cons_append, List.nil_append, stringRest, if_neg hc, if_neg hcq]
      exact Nat.add_comm ..

/-- **A written content is taken whole, whatever follows it.** -/
theorem stringRest_doubled (hq : q ≠ '\n') (hcontent : '\n' ∉ content) (rest : Text) :
    stringRest q (doubled q content ++ rest) = (doubled q content).length + stringRest q rest := by
  induction content with
  | nil => exact (Nat.zero_add _).symm
  | cons c cs ih =>
    rw [List.mem_cons, not_or] at hcontent
    have hcons : doubled q (c :: cs) = written q c ++ doubled q cs := List.flatMap_cons
    rw [hcons, List.append_assoc, stringRest_written hq (Ne.symm hcontent.1), ih hcontent.2,
      List.length_append, Nat.add_assoc]

/-- A quote that no second one follows closes the string. -/
theorem stringRest_lone (hq : q ≠ '\n') (hrest : rest.head? ≠ some q) : stringRest q (q :: rest) = 1 := by
  cases rest with
  | nil => rw [stringRest, if_neg hq]
  | cons c cs =>
    have hc : c ≠ q := fun h => hrest (congrArg some h)
    rw [stringRest, if_neg hq, if_pos rfl, if_neg hc]

/-- Nothing is taken where a line ends. -/
theorem stringRest_lineEnd (q : Char) (hrest : rest = [] ∨ rest.head? = some '\n') : stringRest q rest = 0 := by
  rcases hrest with rfl | hrest
  · rfl
  · obtain ⟨cs, rfl⟩ := List.head?_eq_some_iff.1 hrest
    cases cs <;> rfl

theorem stringRest_closed (hq : q ≠ '\n') (hcontent : '\n' ∉ content) (hrest : rest.head? ≠ some q) :
    stringRest q ((doubled q content ++ [q]) ++ rest) = (doubled q content ++ [q]).length := by
  rw [List.append_assoc, stringRest_doubled hq hcontent, List.singleton_append, stringRest_lone hq hrest,
    List.length_append, List.length_singleton]

theorem stringRest_open (hq : q ≠ '\n') (hcontent : '\n' ∉ content)
    (hrest : rest = [] ∨ rest.head? = some '\n') :
    stringRest q (doubled q content ++ rest) = (doubled q content).length := by
  rw [stringRest_doubled hq hcontent, stringRest_lineEnd q hrest, Nat.add_zero]

end Text

/-! ## Reading it -/

/-- What stands behind `before` is the string `s`, with `after` behind it. -/
structure ReadsString (d : Dialect) (before s after : Text) : Prop where
  /-- the string ends behind `s` -/
  scan : stringEnd (before ++ (s ++ after)) before.size = before.size + s.size
  /-- and so it does byte by byte -/
  bytes : (before ++ (s ++ after)).stringEnd? before.size = some (before.size + s.size)
  /-- unless a comment opens there, the lexer takes `s` first and goes on behind it -/
  first : ¬d.opensComment before.getLast? (s ++ after) →
    d.lexLine? (before ++ (s ++ after)) before.size =
      d.lexFrom (before ++ (s ++ after)) before.size [⟨.string, before.size, s⟩] (before.size + s.size)
  /-- and if it comes to the end of the line, then the line has `s` for its first lexeme -/
  lexeme : ¬d.opensComment before.getLast? (s ++ after) → ¬d.Stalls (before ++ (s ++ after)) before.size →
    ∃ line, d.lexLine? (before ++ (s ++ after)) before.size = some line ∧
      line.lexemes.head? = some ⟨.string, before.size, s⟩
  /-- else no line comes out -/
  stalls : d.Stalls (before ++ (s ++ after)) before.size →
    d.lexLine? (before ++ (s ++ after)) before.size = none

namespace Dialect

variable {q : Char} {w after : Text}

theorem cut_string (d : Dialect) (hq : CharClass.of q = .quote) (hw : stringRest q (w ++ after) = w.length)
    {before : Option Char} (hopens : ¬d.opensComment before (q :: w ++ after)) :
    d.cut before q (w ++ after) = (.string, w.length + 1) := by
  have hclass : d.classHere before (q :: (w ++ after)) = .quote := by
    rw [List.cons_append] at hopens
    rw [classHere, if_neg hopens, hq]
  rw [cut, hclass, hw]

/-- **A string is what its scan takes.** -/
theorem readsString (d : Dialect) (hq : CharClass.of q = .quote) (before : Text)
    (hw : stringRest q (w ++ after) = w.length) : ReadsString d before (q :: w) after := by
  have htake : (w ++ after).take (stringRest q (w ++ after)) = w := by rw [hw, List.take_left]
  have hfront : (q :: (w ++ after)).take (w.length + 1) = q :: w := by rw [List.take_succ_cons, List.take_left]
  constructor
  case scan =>
    rw [stringEnd, Text.splitAt?_size_append, List.cons_append]
    simp only [htake]
  case bytes =>
    have hascii := toNat_lt_of_class hq (.inl rfl)
    rw [List.cons_append, Text.stringEnd?_append hascii, htake]
  case first =>
    intro hopens
    have hturn := d.turn_append before q (w ++ after)
    rw [d.cut_string hq hw hopens] at hturn
    dsimp only at hturn
    rw [hfront, if_neg (by decide)] at hturn
    exact lexFrom_onward [] hturn
  case lexeme =>
    intro hopens hstalls
    have hplace := place_pieces_cons (d.cut_string hq hw hopens) (by decide) (Nat.succ_ne_zero _) before.size
    rw [hfront] at hplace
    refine ⟨_, lexLine?_eq hstalls, ?_⟩
    rw [lexLine, Text.splitAt?_size_append, List.cons_append]
    exact congrArg List.head? hplace
  case stalls => exact fun h => h.lexLine?

/-- **What doubling writes is read back.**  A content between its quotes is one string, if no further quote of
    that kind follows, and a content left open is one up to the end of its line. -/
theorem literal_reads_back (d : Dialect) (hq : q = '"' ∨ q = '\'') {content : Text} (hcontent : '\n' ∉ content)
    (before after : Text) :
    (after.head? ≠ some q → ReadsString d before (Text.literal q content) after) ∧
      (after = [] ∨ after.head? = some '\n' → ReadsString d before (Text.opened q content) after) := by
  have hclass : CharClass.of q = .quote := by rcases hq with rfl | rfl <;> rfl
  have hbreak : q ≠ '\n' := by rcases hq with rfl | rfl <;> decide
  constructor
  · intro hafter
    exact d.readsString hclass before (Text.stringRest_closed hbreak hcontent hafter)
  · intro hafter
    exact d.readsString hclass before (Text.stringRest_open hbreak hcontent hafter)

/-- Quotes at either end of the content, a comment marker and a character of two bytes inside it. -/
theorem literal_reads_back_quotes_at_ends :
    let d : Dialect := {}
    let content : Text := "\"#é\"".toList
    let after : Text := "\nx".toList
    ('\n' ∉ content ∧ after.head? ≠ some '"' ∧ after.head? = some '\n') ∧
      stringEnd "é\n\"\"\"#é\"\"\"\nx".toList 3 = 12 ∧
      (∃ line, d.lexLine? "é\n\"\"\"#é\"\"\"\nx".toList 3 = some line ∧
        line.lexemes.head? = some ⟨.string, 3, "\"\"\"#é\"\"\"".toList⟩) ∧
      Text.stringEnd? "é\n\"\"\"#é\"\"\nx".toList 3 = some 11 := by
  intro d content after
  have hcontent : '\n' ∉ content := by decide
  have hclosed : after.head? ≠ some '"' := by decide
  have hopen : after.head? = some '\n' := by decide
  have hreads := literal_reads_back d (.inl rfl) hcontent "é\n".toList after
  have hliteral := hreads.1 hclosed
  refine ⟨⟨hcontent, hclosed, hopen⟩, hliteral.scan, ?_, (hreads.2 (.inr hopen)).bytes⟩
  exact hliteral.lexeme (by decide) (not_stalls (by decide) _ _)

/-- With a line break for a marker, no line comes out where a literal and a line break stand. -/
theorem literal_before_stall :
    let d : Dialect := ⟨['\n'], true⟩
    let t : Text := Text.literal '"' ['a'] ++ ['\n']
    ¬d.opensComment none t ∧ stringEnd t 0 = 3 ∧ d.lexLine? t 0 = none := by
  intro d t
  have hnoBreak : '\n' ∉ Text.literal '"' ['a'] := by decide
  have hstalls : d.Stalls t 0 :=
    ⟨[], Text.literal '"' ['a'], [], rfl, rfl, fun c hc h => hnoBreak (h ▸ hc), by decide⟩
  exact ⟨by decide, by decide, hstalls.lexLine?⟩

end Dialect

end BlockScript
