/-
  Lexing with cuts that can fail.

  Offsets can miss: past the end, inverted, or inside a character.  Here the lexer is written over offsets
  alone, with every cut of the text and every look at a byte an operation that fails where its offsets miss
  (`rest?`, `front?`, `slice?`, `byte?`); one that fails leaves the whole without a value.  The twins below
  never do: each has the value that its function has.

  1. A class is asked for at any offset and never fails (`classAt?_eq`), since what it cuts it cuts at the
     start of a character, or right behind a marker found there.
  2. The end of a run is reached character by character (`runEnd?_append`), that of a string byte by byte:
     the bytes of characters outside ASCII are no quotes and no line breaks, so a string that starts at a
     character ends at one (`stringEnd?_append`).
  3. So each turn is the turn of the lexer (`turn?_eq`), and its lines are lines.
  4. A word of a line stands where its lexeme says (`textIn?_of_mem_lexLine`), so the reader can cut it out
     again (`read?_eq`).

  A lexeme is made with its text, so the stretch it covers is cut out too.  Lists are taken apart from the
  front and need no index.
-/
import BlockScript.Proofs.LexerTurns
import BlockScript.Proofs.TokenSpans

namespace BlockScript

/-! ## Cuts -/

namespace Text

/-- The text from offset `p` on; fails past the end and inside a character. -/
def rest? (t : Text) (p : Nat) : Option Text := (t.splitAt? p).map Prod.snd

/-- The text before offset `p`; fails past the end and inside a character. -/
def front? (t : Text) (p : Nat) : Option Text := (t.splitAt? p).map Prod.fst

/-- The bytes of the UTF-8 form. -/
def utf8 (t : Text) : List UInt8 := t.flatMap String.utf8EncodeChar

/-- The byte with the given number; fails past the end. -/
def byte? (t : Text) (i : Nat) : Option UInt8 := t.utf8[i]?

theorem rest?_append (a b : Text) : rest? (a ++ b) a.size = some b := by
  rw [rest?, splitAt?_size_append, Option.map_some]

theorem front?_append (a b : Text) : front? (a ++ b) a.size = some a := by
  rw [front?, splitAt?_size_append, Option.map_some]

theorem utf8_append (a b : Text) : utf8 (a ++ b) = utf8 a ++ utf8 b := List.flatMap_append

theorem utf8_cons (c : Char) (cs : Text) : utf8 (c :: cs) = String.utf8EncodeChar c ++ utf8 cs := rfl

@[simp] theorem length_utf8 (t : Text) : t.utf8.length = t.size := by
  induction t with
  | nil => rfl
  | cons c cs ih => rw [utf8_cons, List.length_append, ih, String.length_utf8EncodeChar, size_cons]

/-- A character of ASCII is its own byte; the bytes of any other are none of ASCII. -/
theorem utf8EncodeChar_cases (c : Char) :
    (c.toNat < 128 ∧ String.utf8EncodeChar c = [c.toUInt8]) ∨
      (128 ≤ c.toNat ∧ ∀ b ∈ String.utf8EncodeChar c, 128 ≤ b.toNat) := by
  have hform : String.utf8EncodeChar c =
      if c.toNat ≤ 127 then [c.toUInt8]
      else if c.toNat ≤ 2047 then [UInt8.ofNat (c.toNat / 64 % 32 + 192), UInt8.ofNat (c.toNat % 64 + 128)]
      else if c.toNat ≤ 65535 then
        [UInt8.ofNat (c.toNat / 4096 % 16 + 224), UInt8.ofNat (c.toNat / 64 % 64 + 128),
          UInt8.ofNat (c.toNat % 64 + 128)]
      else
        [UInt8.ofNat (c.toNat / 262144 % 8 + 240), UInt8.ofNat (c.toNat / 4096 % 64 + 128),
          UInt8.ofNat (c.toNat / 64 % 64 + 128), UInt8.ofNat (c.toNat % 64 + 128)] := rfl
  have hbyte (n : Nat) (h1 : 128 ≤ n) (h2 : n < 256) : 128 ≤ (UInt8.ofNat n).toNat := by
    rw [UInt8.toNat_ofNat', Nat.mod_eq_of_lt h2]
    exact h1
  rw [hform]
  by_cases h : c.toNat ≤ 127
  · rw [if_pos h]
    exact .inl ⟨by omega, rfl⟩
  · rw [if_neg h]
    refine .inr ⟨by omega, fun b hb => ?_⟩
    repeat' split at hb
    all_goals
      simp only [List.mem_cons, List.not_mem_nil, or_false] at hb
      rcases hb with rfl | rfl | rfl | rfl <;> exact hbyte _ (by omega) (by omega)

theorem utf8EncodeChar_ascii {q : Char} (hq : q.toNat < 128) : String.utf8EncodeChar q = [q.toUInt8] := by
  rcases utf8EncodeChar_cases q with ⟨-, h⟩ | ⟨h, -⟩
  · exact h
  · omega

theorem utf8Size_ascii {q : Char} (hq : q.toNat < 128) : q.utf8Size = 1 := by
  rw [← String.length_utf8EncodeChar, utf8EncodeChar_ascii hq, List.length_singleton]

/-- The byte of an ASCII character is in no other character. -/
theorem toUInt8_notMem {q c : Char} (hq : q.toNat < 128) (hc : c ≠ q) :
    q.toUInt8 ∉ String.utf8EncodeChar c := by
  have htoNat {x : Char} (hx : x.toNat < 128) : x.toUInt8.toNat = x.toNat := by
    show (UInt8.ofNat x.toNat).toNat = x.toNat
    rw [UInt8.toNat_ofNat', Nat.mod_eq_of_lt (by omega)]
  intro hmem
  rcases utf8EncodeChar_cases c with ⟨hascii, hbyte⟩ | ⟨-, hbytes⟩
  · rw [hbyte, List.mem_singleton] at hmem
    have hsame : q.toNat = c.toNat := by rw [← htoNat hq, hmem, htoNat hascii]
    exact hc (Char.toNat_inj.1 hsame.symm)
  · have hlarge := hbytes _ hmem
    rw [htoNat hq] at hlarge
    omega

end Text

/-! ## Strings, byte by byte -/

namespace Text

/-- A look at byte `pos` of a string whose quote has the byte `q`. -/
def stringStep (t : Text) (q : UInt8) (pos : Nat) : Option (Nat ⊕ Nat) :=
  if pos < t.size then
    (t.byte? pos).map fun b =>
      if b = '\n'.toUInt8 then .inr pos
      else if b = q then if t.utf8[pos + 1]? = some q then .inl (pos + 2) else .inr (pos + 1)
      else .inl (pos + 1)
  else some (.inr t.size)

/-- The offset where the string that opens at offset `start` ends. -/
def stringEnd? (t : Text) (start : Nat) : Option Nat :=
  (t.byte? start).bind fun q => Step.loop (t.stringStep q) (start + 1)

variable {t : Text} {q : UInt8}

/-- Bytes that are neither line breaks nor quotes are passed over. -/
theorem loop_stringStep_skip (xs : List UInt8) {bs ys : List UInt8} (ht : t.utf8 = xs ++ (bs ++ ys))
    (hbreak : '\n'.toUInt8 ∉ bs) (hq : q ∉ bs) :
    Step.loop (t.stringStep q) xs.length = Step.loop (t.stringStep q) (xs.length + bs.length) := by
  induction bs generalizing xs with
  | nil => rfl
  | cons b bs ih =>
    rw [List.mem_cons, not_or] at hbreak hq
    have hstep : t.stringStep q xs.length = some (.inl (xs.length + 1)) := by
      have hlt : xs.length < t.size := by
        rw [← length_utf8, ht]
        simp
      have hbyte : t.byte? xs.length = some b := by
        rw [byte?, ht]
        simp
      rw [stringStep, if_pos hlt, hbyte, Option.map_some, if_neg (Ne.symm hbreak.1), if_neg (Ne.symm hq.1)]
    have hrest := ih (xs ++ [b]) (by simp [ht]) hbreak.2 hq.2
    rw [List.length_append, List.length_singleton] at hrest
    rw [loop_inl hstep, hrest, List.length_cons]
    congr 1
    omega

/-- A character other than the quote and the line break is passed over. -/
theorem loop_stringStep_other {q c : Char} (before rest : Text) (hascii : q.toNat < 128) (hbreak : c ≠ '\n')
    (hq : c ≠ q) :
    Step.loop ((before ++ c :: rest).stringStep q.toUInt8) before.size =
      Step.loop ((before ++ c :: rest).stringStep q.toUInt8) (before ++ [c]).size := by
  have hskip := loop_stringStep_skip (t := before ++ c :: rest) (q := q.toUInt8) before.utf8
    (by rw [utf8_append, utf8_cons]) (toUInt8_notMem (by decide) hbreak) (toUInt8_notMem hascii hq)
  rw [length_utf8, String.length_utf8EncodeChar] at hskip
  rw [hskip, size_append, size_cons, size_nil, Nat.add_zero]

theorem byte?_append {q : Char} (hq : q.toNat < 128) (before rest : Text) :
    (before ++ q :: rest).byte? before.size = some q.toUInt8 := by
  rw [byte?, utf8_append, utf8_cons, utf8EncodeChar_ascii hq, ← length_utf8]
  simp

theorem utf8_head? {q : Char} (hq : q.toNat < 128) (rest : Text) :
    rest.utf8.head? = some q.toUInt8 ↔ rest.head? = some q := by
  cases rest with
  | nil => simp [utf8]
  | cons c cs =>
    rw [utf8_cons, List.head?_cons, Option.some.injEq]
    constructor
    · intro hhead
      by_contra hc
      refine toUInt8_notMem hq hc ?_
      have hne : String.utf8EncodeChar c ≠ [] := by
        rw [← List.length_pos_iff, String.length_utf8EncodeChar]
        exact c.utf8Size_pos
      rw [List.head?_append_of_ne_nil _ hne] at hhead
      exact List.mem_of_mem_head? hhead
    · rintro rfl
      rw [utf8EncodeChar_ascii hq]
      rfl

/-- A line break ends the string before it. -/
theorem stringStep_break (q : UInt8) (before rest : Text) :
    (before ++ '\n' :: rest).stringStep q before.size = some (.inr before.size) := by
  have hlt : before.size < (before ++ '\n' :: rest).size := by
    rw [size_append, size_cons]
    have := ('\n').utf8Size_pos
    omega
  rw [stringStep, if_pos hlt, byte?_append (by decide), Option.map_some, if_pos rfl]

/-- A quote ends the string behind it, unless a second one follows it. -/
theorem stringStep_quote {q : Char} (hq : q.toNat < 128) (hbreak : q ≠ '\n') (before rest : Text) :
    (before ++ q :: rest).stringStep q.toUInt8 before.size =
      some (if rest.head? = some q then .inl (before.size + 2) else .inr (before.size + 1)) := by
  have hlt : before.size < (before ++ q :: rest).size := by
    rw [size_append, size_cons]
    have := q.utf8Size_pos
    omega
  have hnotBreak : q.toUInt8 ≠ '\n'.toUInt8 := by
    intro h
    refine toUInt8_notMem (q := '\n') (by decide) hbreak ?_
    rw [utf8EncodeChar_ascii hq, h]
    exact List.mem_singleton_self _
  have hnext : (before ++ q :: rest).utf8[before.size + 1]? = rest.utf8.head? := by
    rw [utf8_append, utf8_cons, utf8EncodeChar_ascii hq, List.getElem?_append_right (by simp), length_utf8,
      Nat.add_sub_cancel_left, List.head?_eq_getElem?]
    rfl
  rw [stringStep, if_pos hlt, byte?_append hq, Option.map_some, if_neg hnotBreak, if_pos rfl, hnext]
  simp only [utf8_head? hq]

/-- The bytes of a string whose quote is `q`, from offset `before.size` on. -/
theorem loop_stringStep {q : Char} (hq : q.toNat < 128) (before rest : Text) :
    Step.loop ((before ++ rest).stringStep q.toUInt8) before.size =
      some (before.size + size (rest.take (stringRest q rest))) := by
  have hend (t : Text) : t.stringStep q.toUInt8 t.size = some (.inr t.size) := by
    rw [stringStep, if_neg (Nat.lt_irrefl _)]
  have hone := utf8Size_ascii hq
  fun_induction stringRest q rest generalizing before with
  | case1 =>
    rw [List.append_nil]
    exact loop_inr (hend before)
  | case2 => exact loop_inr (stringStep_break _ before [])
  | case3 c hc =>
    by_cases hcq : c = q
    · subst hcq
      rw [loop_inr (stringStep_quote hq hc before []), List.take_succ_cons, size_cons, hone]
      rfl
    · rw [loop_stringStep_other before [] hq hc hcq, loop_inr (hend _), size_append]
      rfl
  | case4 c' cs => exact loop_inr (stringStep_break _ before (c' :: cs))
  | case5 cs hbreak ih =>
    -- a doubled quote: the string goes on behind both
    have hrest := ih (before ++ [q, q])
    rw [size_append, show size [q, q] = 2 by simp [hone], List.append_assoc] at hrest
    have hstep := stringStep_quote hq hbreak before (q :: cs)
    rw [List.head?_cons, if_pos rfl] at hstep
    rw [loop_inl hstep, List.take_succ_cons, List.take_succ_cons, size_cons, size_cons, hone]
    exact hrest.trans (by rw [Nat.add_assoc, ← Nat.add_assoc 1])
  | case6 c' cs hc' hbreak =>
    have hstep := stringStep_quote hq hbreak before (c' :: cs)
    rw [List.head?_cons, if_neg (by simpa using hc')] at hstep
    rw [loop_inr hstep, List.take_succ_cons, size_cons, hone]
    rfl
  | case7 c c' cs hbreak hcq ih =>
    have hrest := ih (before ++ [c])
    rw [List.append_assoc] at hrest
    rw [loop_stringStep_other before (c' :: cs) hq hbreak hcq, List.take_succ_cons, size_cons]
    refine hrest.trans ?_
    rw [size_append, size_cons, size_nil, Nat.add_zero, Nat.add_assoc]

/-- **A string that opens at a quote ends at a character.** -/
theorem stringEnd?_append {q : Char} (hq : q.toNat < 128) (before rest : Text) :
    (before ++ q :: rest).stringEnd? before.size =
      some (before.size + size (q :: rest.take (stringRest q rest))) := by
  have hone := utf8Size_ascii hq
  have hloop := loop_stringStep hq (before ++ [q]) rest
  rw [List.append_assoc, size_append, size_cons, size_nil, hone] at hloop
  rw [stringEnd?, byte?_append hq, Option.bind_some, size_cons, hone]
  exact hloop.trans (by rw [Nat.add_assoc])

end Text

/-! ## Classes and runs -/

namespace Text

/-- The offset behind the character at offset `pos`. -/
def nextChar? (t : Text) (pos : Nat) : Option Nat :=
  (t.rest? pos).map fun rest => rest.head?.elim t.size (pos + ·.utf8Size)

/-- Whether a `=` that no second one follows stands at offset `pos`. -/
def isLoneEquals? (t : Text) (pos : Nat) : Option Bool :=
  (t.rest? pos).bind fun rest =>
    if rest.head? = some '=' then (t.rest? (pos + 1)).map fun after => after.head? ≠ some '=' else some false

theorem nextChar?_append (before : Text) (c : Char) (cs : Text) :
    (before ++ c :: cs).nextChar? before.size = some (before ++ [c]).size := by
  rw [nextChar?, rest?_append]
  show some (before.size + c.utf8Size) = some (before ++ [c]).size
  rw [size_append]
  rfl

theorem isLoneEquals?_append (before : Text) (c : Char) (cs : Text) :
    (before ++ c :: cs).isLoneEquals? before.size = some (c = '=' && cs.head? ≠ some '=') := by
  rw [isLoneEquals?, rest?_append, Option.bind_some, List.head?_cons]
  by_cases hc : c = '='
  · subst hc
    have hrest : (before ++ '=' :: cs).rest? (before.size + 1) = some cs := by
      have := rest?_append (before ++ ['=']) cs
      rwa [List.append_assoc, size_append] at this
    rw [if_pos rfl, hrest, Option.map_some]
    simp
  · rw [if_neg (by simpa using hc)]
    simp [hc]

end Text

namespace Dialect

/-- Whether a comment opens at offset `pos`. -/
def opensCommentAt? (d : Dialect) (t : Text) (pos : Nat) : Option Bool :=
  if d.marker.isEmpty then some false
  else
    (t.rest? pos).bind fun rest =>
      if !d.marker.isPrefixOf rest then some false
      else if !d.hasWordMarker then some true
      else
        (t.front? pos).bind fun before =>
          (t.rest? (pos + d.marker.size)).map fun after =>
            !before.getLast?.any isScriptWord && !after.head?.any isScriptWord

/-- The class at offset `pos`; past the end and inside a character it is a line break. -/
def classAt? (d : Dialect) (t : Text) (pos : Nat) : Option CharClass :=
  ((t.rest? pos).bind List.head?).elim (some .newline) fun c =>
    (d.opensCommentAt? t pos).map fun opens => if opens then .comment else CharClass.of c

/-- A look at the character at offset `pos` behind a run of class `k`. -/
def runStep (d : Dialect) (t : Text) (k : CharClass) (pos : Nat) : Option (Nat ⊕ Nat) :=
  if pos < t.size then
    (d.classAt? t pos).bind fun k' => if k' = k then (t.nextChar? pos).map .inl else some (.inr pos)
  else some (.inr pos)

/-- The offset where the run of class `k` ends that starts at offset `start`. -/
def runEnd? (d : Dialect) (t : Text) (k : CharClass) (start : Nat) : Option Nat :=
  (t.nextChar? start).bind (Step.loop (d.runStep t k))

theorem opensCommentAt?_append (d : Dialect) (before rest : Text) :
    d.opensCommentAt? (before ++ rest) before.size = some (d.opensComment before.getLast? rest) := by
  rw [opensCommentAt?, opensComment]
  cases hempty : d.marker.isEmpty with
  | true => rfl
  | false =>
    rw [if_neg Bool.false_ne_true, Text.rest?_append, Option.bind_some]
    cases hpre : d.marker.isPrefixOf rest with
    | false => rfl
    | true =>
      cases hword : d.hasWordMarker with
      | false => rfl
      | true =>
        -- the text behind the marker starts at a character, as the marker itself stands there
        obtain ⟨after, rfl⟩ := List.isPrefixOf_iff_prefix.1 hpre
        have hafter : (before ++ (d.marker ++ after)).rest? (before.size + d.marker.size) = some after := by
          rw [← List.append_assoc, ← Text.size_append, Text.rest?_append]
        simp [Text.front?_append, hafter]

/-- **A class is told at every offset.** -/
theorem classAt?_eq (d : Dialect) (t : Text) (pos : Nat) : d.classAt? t pos = some (d.classAt t pos) := by
  cases hs : t.splitAt? pos with
  | none =>
    rw [classAt?, classAt, Text.rest?, hs]
    rfl
  | some cut =>
    obtain ⟨before, rest⟩ := cut
    obtain ⟨rfl, rfl⟩ := Text.splitAt?_append hs
    rw [classAt?, classAt, Text.rest?_append, hs]
    cases rest with
    | nil => rfl
    | cons c cs =>
      show (d.opensCommentAt? (before ++ c :: cs) before.size).map _ = _
      rw [opensCommentAt?_append]
      rfl

theorem classAt_append (d : Dialect) (before rest : Text) :
    d.classAt (before ++ rest) before.size = d.classHere before.getLast? rest := by
  rw [classAt, Text.splitAt?_size_append]

/-- Behind the character `x` a run goes on for as many characters as have its class. -/
theorem loop_runStep (d : Dialect) (k : CharClass) (rest before : Text) (x : Char)
    (hx : before.getLast? = some x) :
    Step.loop (d.runStep (before ++ rest) k) before.size =
      some (before.size + Text.size (rest.take (d.run k x rest))) := by
  induction rest generalizing before x with
  | nil =>
    refine loop_inr ?_
    rw [List.append_nil, runStep, if_neg (Nat.lt_irrefl _)]
    rfl
  | cons c cs ih =>
    have hlt : before.size < (before ++ c :: cs).size := by
      rw [Text.size_append, Text.size_cons]
      have := c.utf8Size_pos
      omega
    rw [run]
    by_cases hk : d.classHere (some x) (c :: cs) = k
    · have hstep : d.runStep (before ++ c :: cs) k before.size = some (.inl (before ++ [c]).size) := by
        rw [runStep, if_pos hlt, classAt?_eq, classAt_append, hx, Option.bind_some, if_pos hk,
          Text.nextChar?_append, Option.map_some]
      have hrest := ih (before ++ [c]) c (by simp)
      rw [List.append_assoc] at hrest
      rw [loop_inl hstep, if_pos hk, List.take_succ_cons, Text.size_cons]
      refine hrest.trans ?_
      rw [Text.size_append, Text.size_cons, Text.size_nil, Nat.add_zero, Nat.add_assoc]
    · rw [if_neg hk]
      refine loop_inr ?_
      rw [runStep, if_pos hlt, classAt?_eq, classAt_append, hx, Option.bind_some, if_neg hk]
      rfl

theorem runEnd?_append (d : Dialect) (k : CharClass) (before : Text) (c : Char) (cs : Text) :
    d.runEnd? (before ++ c :: cs) k before.size =
      some (before.size + Text.size ((c :: cs).take (d.run k c cs + 1))) := by
  have hloop := d.loop_runStep k cs (before ++ [c]) c (by simp)
  rw [List.append_assoc] at hloop
  rw [runEnd?, Text.nextChar?_append, Option.bind_some, List.take_succ_cons, Text.size_cons]
  refine hloop.trans ?_
  rw [Text.size_append, Text.size_cons, Text.size_nil, Nat.add_zero, Nat.add_assoc]

/-! ## Turns -/

end Dialect

/-- The turn that takes the stretch from offset `pos` up to `stop` as a lexeme. -/
def Text.taken? (t : Text) (kind : LexemeKind) (pos stop : Nat) : Option Turn :=
  (t.slice? pos stop).map fun w => .onward stop (some ⟨kind, pos, w⟩)

theorem Text.taken?_append (kind : LexemeKind) (before rest : Text) (n : Nat) :
    (before ++ rest).taken? kind before.size (before.size + size (rest.take n)) =
      some (.onward (before.size + size (rest.take n)) (some ⟨kind, before.size, rest.take n⟩)) := by
  have hat : HasAt (before ++ rest) before.size (rest.take n) :=
    ⟨before, rest.drop n, by rw [List.take_append_drop], rfl⟩
  rw [taken?, hat.slice?, Option.map_some]

theorem Text.taken?_ascii (kind : LexemeKind) (before : Text) {c : Char} (hc : c.toNat < 128) (cs : Text) :
    (before ++ c :: cs).taken? kind before.size (before.size + 1) =
      some (.onward (before.size + size [c]) (some ⟨kind, before.size, [c]⟩)) := by
  have hone : size [c] = 1 := by rw [size_cons, size_nil, utf8Size_ascii hc]
  rw [← hone]
  exact taken?_append kind before (c :: cs) 1

namespace Dialect

/-- The turn at offset `pos`, where the class is `k`. -/
def turnIn? (d : Dialect) (t : Text) (pos : Nat) (k : CharClass) : Option Turn :=
  match k with
  | .newline => some (.ends (pos + 1) (some ⟨.newline, pos, ['\n']⟩))
  | .blank => (t.nextChar? pos).map (.onward · none)
  | .comment => (t.rest? pos).map fun rest => .onward (pos + Text.size (rest.takeWhile (· ≠ '\n'))) none
  | .separator => t.taken? .semicolon pos (pos + 1)
  | .quote => (t.stringEnd? pos).bind (t.taken? .string pos)
  | .word => (d.runEnd? t .word pos).bind (t.taken? .word pos)
  | .symbol =>
    (t.isLoneEquals? pos).bind fun lone =>
      if lone then t.taken? .equals pos (pos + 1) else (d.runEnd? t .symbol pos).bind (t.taken? .symbol pos)

/-- The turn of the line lexer at offset `pos`. -/
def turn? (d : Dialect) (t : Text) (pos : Nat) : Option Turn :=
  if pos < t.size then (d.classAt? t pos).bind (d.turnIn? t pos) else some (.ends t.size none)

/-- Quotes, separators and line breaks are characters of ASCII. -/
theorem toNat_lt_of_class {c : Char} {k : CharClass} (h : CharClass.of c = k)
    (hk : k = .quote ∨ k = .separator ∨ k = .newline) : c.toNat < 128 := by
  by_contra hc
  rw [CharClass.of, if_neg hc] at h
  split at h
  · subst h; simp at hk
  · split at h <;> (subst h; simp at hk)

/-- **A turn is made at every offset.** -/
theorem turn?_eq (d : Dialect) (t : Text) (pos : Nat) : d.turn? t pos = some (d.turn t pos) := by
  cases hs : t.splitAt? pos with
  | none =>
    have hclass : d.classAt t pos = .newline := by rw [classAt, hs]
    rw [turn?, turn, classAt?_eq, hclass, hs]
    by_cases hpos : pos < t.size
    · rw [if_pos hpos]
      simp only [if_pos hpos]
      rfl
    · rw [if_neg hpos]
      simp only [if_neg hpos]
  | some cut =>
    obtain ⟨before, rest⟩ := cut
    obtain ⟨rfl, rfl⟩ := Text.splitAt?_append hs
    cases rest with
    | nil =>
      rw [turn?, turn, hs, List.append_nil, if_neg (Nat.lt_irrefl _)]
    | cons c cs =>
      have hlt : before.size < (before ++ c :: cs).size := by
        rw [Text.size_append, Text.size_cons]
        have := c.utf8Size_pos
        omega
      rw [turn?, if_pos hlt, classAt?_eq, classAt_append, Option.bind_some, turn_append, cut]
      cases hk : d.classHere before.getLast? (c :: cs) with
      | newline =>
        obtain rfl := CharClass.eq_newline_of_of (of_eq_of_classHere hk (by simp))
        rfl
      | blank =>
        show ((before ++ c :: cs).nextChar? before.size).map (Turn.onward · none) = _
        rw [Text.nextChar?_append, Text.size_append]
        rfl
      | comment =>
        show ((before ++ c :: cs).rest? before.size).map _ = _
        rw [Text.rest?_append]
        dsimp only
        rw [← List.prefix_iff_eq_take.1 (List.takeWhile_prefix _)]
        rfl
      | separator =>
        have hascii := toNat_lt_of_class (of_eq_of_classHere hk (by simp)) (by simp)
        exact Text.taken?_ascii .semicolon before hascii cs
      | quote =>
        have hascii := toNat_lt_of_class (of_eq_of_classHere hk (by simp)) (by simp)
        show ((before ++ c :: cs).stringEnd? before.size).bind _ = _
        rw [Text.stringEnd?_append hascii]
        exact Text.taken?_append .string before (c :: cs) (stringRest c cs + 1)
      | word =>
        show (d.runEnd? (before ++ c :: cs) .word before.size).bind _ = _
        rw [runEnd?_append]
        exact Text.taken?_append .word before (c :: cs) _
      | symbol =>
        show ((before ++ c :: cs).isLoneEquals? before.size).bind _ = _
        rw [Text.isLoneEquals?_append, Option.bind_some]
        by_cases hlone : c = '=' && cs.head? ≠ some '='
        · have hc : c = '=' := by simpa using (Bool.and_eq_true_iff.1 hlone).1
          rw [if_pos hlone]
          simp only [if_pos hlone]
          exact Text.taken?_ascii .equals before (by rw [hc]; decide) cs
        · rw [if_neg hlone, runEnd?_append]
          simp only [if_neg hlone]
          exact Text.taken?_append .symbol before (c :: cs) _

/-! ## Lines -/

/-- A turn of a line that starts at `start`, with the lexemes found so far. -/
def lexStep? (d : Dialect) (t : Text) (start : Nat) (s : List Lexeme × Nat) :
    Option ((List Lexeme × Nat) ⊕ LexedLine) :=
  (d.turn? t s.2).map fun turn =>
    match turn with
    | .ends stop found => .inr ⟨start, stop, s.1 ++ found.toList⟩
    | .onward pos found => .inl (s.1 ++ found.toList, pos)

/-- The line at offset `start`, which need not be the start of a line. -/
def lexed? (d : Dialect) (t : Text) (start : Nat) : Option LexedLine := Step.loop (d.lexStep? t start) ([], start)

/-- **A line is lexed from every offset.** -/
theorem lexed?_eq {d : Dialect} (hm : d.marker.head? ≠ some '\n') (t : Text) (start : Nat) :
    d.lexed? t start = some (d.lexLine t start) := by
  have hstep : d.lexStep? t start = d.lexStep t start := by
    funext s
    rw [lexStep?, turn?_eq, Option.map_some, lexStep]
    cases d.turn t s.2 <;> rfl
  rw [lexed?, hstep]
  exact lexLine?_eq (not_stalls hm t start)

end Dialect

/-! ## Reading -/

/-- The text of a lexeme, cut out of the text it stands in. -/
def Lexeme.textIn? (l : Lexeme) (t : Text) : Option Text := t.slice? l.start l.stop

namespace Dialect

/-- Whether a lexeme is a word that spells `k`. -/
def lexemeIs? (d : Dialect) (t : Text) (k : Keyword) (l : Lexeme) : Option Bool :=
  if l.kind = .word then (l.textIn? t).map (d.isKeyword · k) else some false

/-- The lexemes from the first `then` on. -/
def fromThen? (d : Dialect) (t : Text) : List Lexeme → Option (List Lexeme)
  | [] => some []
  | l :: ls => (d.lexemeIs? t .thenWord l).bind fun found => if found then some (l :: ls) else d.fromThen? t ls

/-- The kind of an `if` with the lexemes `rest` after it on its line. -/
def ifKind? (d : Dialect) (t : Text) (rest : List Lexeme) : Option TokenKind :=
  (d.fromThen? t rest).map fun found =>
    match found with
    | [] => .ifLine
    | [_] => .ifBlock
    | _ :: l :: _ => if l.endsStatement then .ifBlock else .ifLine

/-- The kind of a word that stays a token of its own, and the header it leaves the reader in.  Only `if` and
    `else` look at the words after them. -/
def wordKind? (d : Dialect) (t : Text) (header : Header) (k : Option Keyword) (rest : List Lexeme) :
    Option (TokenKind × Header) :=
  if k = some .ifWord then (d.ifKind? t rest).map (·, header)
  else if k = some .elseWord then
    (rest.head?.elim (some false) (d.lexemeIs? t .ifWord)).map fun chained =>
      (if chained then .elseLine else .elseBlock, header)
  else some (d.wordKind header k rest)

/-- The token that the lexeme `l` starts, with `rest` after it: that token, the header behind it and the
    lexemes left. -/
def firstToken? (d : Dialect) (t : Text) (header : Header) (l : Lexeme) (rest : List Lexeme) :
    Option (Token × Header × List Lexeme) :=
  match l.kind with
  | .newline => some (l.token .separator, .outside, rest)
  | .semicolon => some (l.token .separator, .outside, rest)
  | .string => some (l.token .expr, header, rest)
  | .symbol => some (l.token .expr, header, rest)
  | .equals =>
    if header = .beforeAssign then some (l.token .assign, .afterAssign, rest)
    else some (l.token .expr, header, rest)
  | .word =>
    (l.textIn? t).bind fun word =>
      match (d.keyword? word).bind Keyword.folding, rest with
      | some (bare, _), [] => some (l.token bare, header, [])
      | some (bare, named), n :: rest =>
        if n.kind = .word then some (l.tokenNamed named n, header, rest)
        else some (l.token bare, header, n :: rest)
      | none, rest =>
        (d.wordKind? t header (d.keyword? word) rest).map fun found => (l.token found.1, found.2, rest)

/-- One more token of a line, behind those found so far. -/
def readStep? (d : Dialect) (t : Text) (s : List Token × Header × List Lexeme) :
    Option ((List Token × Header × List Lexeme) ⊕ List Token) :=
  match s.2.2 with
  | [] => some (.inr s.1)
  | l :: rest => (d.firstToken? t s.2.1 l rest).map fun found => .inl (s.1 ++ [found.1], found.2)

/-- The tokens of a line. -/
def read? (d : Dialect) (t : Text) (ls : List Lexeme) : Option (List Token) :=
  Step.loop (d.readStep? t) ([], .outside, ls)

variable {d : Dialect} {t : Text} {ls : List Lexeme}

theorem lexemeIs?_eq {l : Lexeme} (h : l.kind = .word → l.textIn? t = some l.text) (k : Keyword) :
    d.lexemeIs? t k l = some (d.lexemeIs k l) := by
  by_cases hk : l.kind = .word
  · rw [lexemeIs?, lexemeIs, if_pos hk, h hk, Option.map_some, decide_eq_true hk, Bool.true_and]
  · rw [lexemeIs?, lexemeIs, if_neg hk, decide_eq_false hk, Bool.false_and]

theorem fromThen?_eq (h : ∀ l ∈ ls, l.kind = .word → l.textIn? t = some l.text) :
    d.fromThen? t ls = some (ls.dropWhile (!d.lexemeIs .thenWord ·)) := by
  induction ls with
  | nil => rfl
  | cons l ls ih =>
    rw [fromThen?, lexemeIs?_eq (h l (List.mem_cons_self ..)), Option.bind_some]
    cases hl : d.lexemeIs .thenWord l with
    | true => rw [if_pos rfl, List.dropWhile_cons_of_neg (by simp [hl])]
    | false =>
      rw [if_neg Bool.false_ne_true, List.dropWhile_cons_of_pos (by simp [hl])]
      exact ih fun x hx => h x (List.mem_cons_of_mem _ hx)

theorem wordKind?_eq (h : ∀ l ∈ ls, l.kind = .word → l.textIn? t = some l.text) (header : Header)
    (k : Option Keyword) : d.wordKind? t header k ls = some (d.wordKind header k ls) := by
  rw [wordKind?]
  by_cases hif : k = some .ifWord
  · rw [if_pos hif, ifKind?, fromThen?_eq h, hif]
    rfl
  rw [if_neg hif]
  by_cases helse : k = some .elseWord
  · rw [if_pos helse, helse]
    cases ls with
    | nil => rfl
    | cons l ls =>
      show (d.lexemeIs? t .ifWord l).map _ = _
      rw [lexemeIs?_eq (h l (List.mem_cons_self ..))]
      rfl
  · rw [if_neg helse]

/-- Reading takes one token after another. -/
theorem firstToken?_eq {l : Lexeme} (h : ∀ x ∈ l :: ls, x.kind = .word → x.textIn? t = some x.text)
    (header : Header) :
    ∃ x header' rest, d.firstToken? t header l ls = some (x, header', rest) ∧ rest <:+ ls ∧
      d.read header (l :: ls) = x :: d.read header' rest := by
  rw [firstToken?, read.eq_def]
  dsimp only
  cases hk : l.kind with
  | newline | semicolon | string | symbol => exact ⟨_, _, _, rfl, List.suffix_rfl, rfl⟩
  | equals =>
    dsimp only
    by_cases hheader : header = .beforeAssign
    · rw [if_pos hheader, if_pos hheader]
      exact ⟨_, _, _, rfl, List.suffix_rfl, rfl⟩
    · rw [if_neg hheader, if_neg hheader]
      exact ⟨_, _, _, rfl, List.suffix_rfl, rfl⟩
  | word =>
    dsimp only
    rw [h l (List.mem_cons_self ..) hk, Option.bind_some]
    cases (d.keyword? l.text).bind Keyword.folding with
    | none =>
      dsimp only
      rw [wordKind?_eq fun x hx => h x (List.mem_cons_of_mem _ hx)]
      exact ⟨_, _, _, rfl, List.suffix_rfl, rfl⟩
    | some kinds =>
      obtain ⟨bare, named⟩ := kinds
      cases ls with
      | nil => exact ⟨_, _, _, rfl, List.suffix_rfl, rfl⟩
      | cons n rest =>
        dsimp only
        by_cases hn : n.kind = .word
        · rw [if_pos hn, if_pos hn]
          exact ⟨_, _, _, rfl, List.suffix_cons .., rfl⟩
        · rw [if_neg hn, if_neg hn]
          exact ⟨_, _, _, rfl, List.suffix_rfl, rfl⟩

/-- **A line whose words can be cut out again can be read.** -/
theorem read?_eq (h : ∀ l ∈ ls, l.kind = .word → l.textIn? t = some l.text) :
    d.read? t ls = some (d.tokensOf ls) := by
  let result (s : List Token × Header × List Lexeme) : List Token := s.1 ++ d.read s.2.1 s.2.2
  refine (loop_eq_some (Q := fun _ => True) result
    (I := fun s => ∀ l ∈ s.2.2, l.kind = .word → l.textIn? t = some l.text)
    (fun s => s.2.2.length) ?_ h).1
  rintro ⟨ts, header, ls⟩ hls
  cases ls with
  | nil =>
    refine .inl ⟨?_, trivial⟩
    show some (Sum.inr ts) = some (Sum.inr (ts ++ []))
    rw [List.append_nil]
  | cons l ls =>
    obtain ⟨x, header', rest, hfirst, hrest, hread⟩ := firstToken?_eq (d := d) hls header
    refine .inr ⟨(ts ++ [x], header', rest), ?_, ?_, ?_, ?_⟩
    · show (d.firstToken? t header l ls).map _ = _
      rw [hfirst]
      rfl
    · exact fun y hy => hls y (List.mem_cons_of_mem _ (hrest.subset hy))
    · exact Nat.lt_succ_of_le hrest.length_le
    · show ts ++ [x] ++ d.read header' rest = ts ++ d.read header (l :: ls)
      rw [hread, List.append_assoc]
      rfl

/-- The words of a line stand where their lexemes say. -/
theorem textIn?_of_mem_lexLine {start : Nat} {l : Lexeme} (hl : l ∈ (d.lexLine t start).lexemes)
    (hk : l.kind = .word) : l.textIn? t = some l.text := by
  rw [lexLine] at hl
  cases hs : t.splitAt? start with
  | none =>
    -- the one lexeme there is inside a character is a line break
    rw [hs] at hl
    dsimp only at hl
    split at hl
    · rw [List.mem_singleton.1 hl] at hk
      cases hk
    · cases hl
  | some cut =>
    obtain ⟨before, rest⟩ := cut
    obtain ⟨rfl, rfl⟩ := Text.splitAt?_append hs
    rw [hs] at hl
    obtain ⟨front, q, back, hps, -, hstart, htext⟩ := mem_place.1 hl
    have hat := hasAt_of_pieces before hps
    rw [← hstart, ← htext] at hat
    exact hat.slice?

/-- The tokens of the line at offset `start`, and the offset where the next line starts. -/
def tokensAt? (d : Dialect) (t : Text) (start : Nat) : Option (List Token × Nat) :=
  (d.lexed? t start).bind fun line => (d.read? t line.lexemes).map (·, line.stop)

/-- The tokens of one more line, behind those found so far. -/
def lineStep? (d : Dialect) (t : Text) (s : List Token × Nat) : Option ((List Token × Nat) ⊕ List Token) :=
  if s.2 < t.size then (d.tokensAt? t s.2).map fun line => .inl (s.1 ++ line.1, line.2) else some (.inr s.1)

/-- The tokens of a text. -/
def tokens? (d : Dialect) (t : Text) : Option (List Token) := Step.loop (d.lineStep? t) ([], 0)

/-- **The line at any offset is lexed and read without a miss.** -/
theorem tokensAt?_eq (hm : d.marker.head? ≠ some '\n') (t : Text) (start : Nat) :
    d.tokensAt? t start = some (d.tokensOf (d.lexLine t start).lexemes, (d.lexLine t start).stop) := by
  rw [tokensAt?, lexed?_eq hm, Option.bind_some, read?_eq fun l hl => textIn?_of_mem_lexLine hl,
    Option.map_some]

theorem tokens?_eq (hm : d.marker.head? ≠ some '\n') (t : Text) : d.tokens? t = some (d.tokenize t) := by
  have hstep : d.lineStep? t = d.lineStep t := by
    funext s
    rw [lineStep?, lineStep, tokensAt?_eq hm, lexLine?_eq (not_stalls hm t s.2)]
    rfl
  rw [tokens?, hstep]
  exact d.tokenize?_eq hm t

end Dialect

end BlockScript
