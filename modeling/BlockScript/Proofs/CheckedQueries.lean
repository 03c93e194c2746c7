/-
  Questions about a script with cuts that can fail.

  Each question is asked as the program asks it, with the searches of `CheckedSearch` and every cut it makes
  itself: names for the pairs it compares and the texts it gives, the line to indent and the line it is
  indented by.  None of them misses, whatever offset it is asked at, and each has the answer it has.

  1. The tokens of a pair found can be read, so its names can be compared (`findMatch?_eq`, `renameEdit?_eq`).
  2. An indentation hangs on a line that starts where a line of the text starts (`anchor_eq_lineStart`), so the
     text can be cut there (`indentOf?_eq`), and the ending of a line is cut off behind its body
     (`indentLine?_eq`, `reindent?_eq`).
  3. The variable of a loop and the names of the first pair that differs stand in the text
     (`closingText?_eq`, `nameMismatches?_eq`).
-/
import BlockScript.Nesting.Closing
import BlockScript.Proofs.CheckedSearch
import BlockScript.Proofs.IndentLevels
import BlockScript.Proofs.NamePairs
import Mathlib.Data.Option.Basic

namespace BlockScript

/-! ## Pairs and open constructs -/

/-- Whether the names of both tokens of a pair can be read. -/
structure Pair.Readable (t : Text) (r : Pair) : Prop where
  opener : r.opener.Readable t
  closer : r.closer.Readable t

namespace Profile

section Definitions

variable (P : Profile) (b : Buffer)

/-- The token at or after offset `p`. -/
def classify? (p : Nat) : Option Token := (P.scanner.next? P.dialect b p).map Prod.fst

/-- The pair of a closer or an inner keyword with its opener; an `else` of single lines has none. -/
def matchAbove (s : Scanner) (x : Token) : Option Pair :=
  let flat := if x.kind = .elseBlock then P.isFlatElse b s x else (false, s)
  if flat.1 then none else (P.openerOf b flat.2 x).1.map (⟨·, x⟩)

/-- The same with cuts that can fail. -/
def matchAbove? (s : Scanner) (x : Token) : Option (Option Pair) :=
  (if x.kind = .elseBlock then P.isFlatElse? b s x else some (false, s)).bind fun flat =>
    if flat.1 then some none else (P.openerOf? b flat.2 x).map fun o => o.1.map (⟨·, x⟩)

/-- The pair that the token `x` belongs to by its role. -/
def matchByRole (s : Scanner) (x : Token) (role : Role) : Option Pair :=
  match role with
  | .opener => (P.closerOf b s x).1.map (⟨x, ·⟩)
  | .neutral => none
  | _ => P.matchAbove b s x

/-- The same with cuts that can fail. -/
def matchByRole? (s : Scanner) (x : Token) (role : Role) : Option (Option Pair) :=
  match role with
  | .opener => (P.closerOf? b s x).map fun c => c.1.map (⟨x, ·⟩)
  | .neutral => some none
  | _ => P.matchAbove? b s x

/-- The pair that the keyword at or after offset `p` belongs to. -/
def findMatch? (p : Nat) : Option (Option Pair) :=
  (P.scanner.next? P.dialect b p).bind fun r =>
    (P.continuesIf? b r.2 r.1).bind fun c =>
      if c.1 then (P.openerOf? b c.2 r.1.asElse).map fun o => o.1.map (⟨·, r.1⟩)
      else P.matchByRole? b c.2 r.1 r.1.kind.role

/-- Where the keyword stands that belongs to the one at or after offset `p`. -/
def matching? (p : Nat) : Option (Option Nat) :=
  (P.classify? b p).bind fun x =>
    (P.findMatch? b p).map fun found =>
      found.map fun pair => if pair.opener = x then pair.closer.start else pair.opener.start

/-- The constructs open at offset `p`, outermost first. -/
def context? (p : Nat) : Option (List OpenConstruct) :=
  (P.allUnclosedBefore? b P.scanner {} (min p b.size) []).map (·.map Token.construct)

end Definitions

variable {P : Profile} {b : Buffer} {s : Scanner} {x : Token}

theorem findMatch_byRole (p : Nat) :
    P.findMatch b p =
      let r := P.scanner.next P.dialect b p
      let q := P.continuesIf b r.2 r.1
      if q.1 then (P.openerOf b q.2 r.1.asElse).1.map (⟨·, r.1⟩)
      else P.matchByRole b q.2 r.1 r.1.kind.role := by
  have hrole : ∀ role, (P.scanner.next P.dialect b p).1.kind.role = role →
      P.findMatch b p =
        let r := P.scanner.next P.dialect b p
        let q := P.continuesIf b r.2 r.1
        if q.1 then (P.openerOf b q.2 r.1.asElse).1.map (⟨·, r.1⟩)
        else P.matchByRole b q.2 r.1 role := by
    intro role h
    rw [findMatch_of_role h]
    cases role <;> rfl
  exact hrole _ rfl

theorem kind_of_continuesIf (h : (P.continuesIf b s x).1) : x.kind = .ifBlock ∨ x.kind = .elseLine := by
  by_contra hk
  rw [continuesIf_other (not_or.1 hk).1 (not_or.1 hk).2] at h
  cases h

theorem walk_readable (t : Text) : Walk.Readable t {} :=
  ⟨fun x hx => (by cases hx), fun pair hpair => (by cases hpair)⟩

variable (hm : P.dialect.marker.head? ≠ some '\n')

include hm

theorem classify?_eq (p : Nat) : P.classify? b p = some (P.classify b p) := by
  rw [classify?, Scanner.next?_eq hm, Option.map_some, classify]

/-- The opener found for a token makes a pair that can be read with another. -/
theorem openerOf?_pair (hs : s.Sound P.dialect b) {y : Token} (hy : y.Readable b.text)
    (hx : x.Readable b.text) :
    (P.openerOf? b s y).map (fun o => o.1.map (Pair.mk · x)) = some ((P.openerOf b s y).1.map (Pair.mk · x)) ∧
      ∀ pair ∈ (P.openerOf b s y).1.map (Pair.mk · x), pair.Readable b.text := by
  obtain ⟨heq, hread⟩ := openerOf?_eq hm hs hy
  refine ⟨by rw [heq, Option.map_some], fun pair hpair => ?_⟩
  obtain ⟨o, ho, rfl⟩ := Option.map_eq_some_iff.1 hpair
  exact ⟨hread o ho, hx⟩

theorem matchAbove?_eq (hs : s.Sound P.dialect b) (hx : x.Readable b.text) :
    P.matchAbove? b s x = some (P.matchAbove b s x) ∧ ∀ pair ∈ P.matchAbove b s x, pair.Readable b.text := by
  have hflat : (if x.kind = .elseBlock then P.isFlatElse? b s x else some (false, s)) =
      some (if x.kind = .elseBlock then P.isFlatElse b s x else (false, s)) := by
    rw [isFlatElse?_eq hm]
    split <;> rfl
  have hsound : (if x.kind = .elseBlock then P.isFlatElse b s x else (false, s)).2.Sound P.dialect b := by
    split
    · exact (isFlatElse_follows hs x).sound hs
    · exact hs
  rw [matchAbove?, matchAbove, hflat, Option.bind_some]
  generalize (if x.kind = .elseBlock then P.isFlatElse b s x else (false, s)) = flat at hsound ⊢
  split
  · exact ⟨rfl, fun pair hpair => (by cases hpair)⟩
  · exact openerOf?_pair hm hsound hx hx

theorem matchByRole?_eq (hs : s.Sound P.dialect b) {role : Role} (hx : role ≠ .neutral → x.Readable b.text) :
    P.matchByRole? b s x role = some (P.matchByRole b s x role) ∧
      ∀ pair ∈ P.matchByRole b s x role, pair.Readable b.text := by
  cases role with
  | neutral => exact ⟨rfl, fun pair hpair => (by cases hpair)⟩
  | opener =>
    obtain ⟨heq, hread⟩ := closerOf?_eq hm hs x
    rw [matchByRole?, matchByRole]
    refine ⟨by rw [heq, Option.map_some], fun pair hpair => ?_⟩
    obtain ⟨c, hc, rfl⟩ := Option.map_eq_some_iff.1 hpair
    exact ⟨hx (by decide), hread c hc⟩
  | inner => exact matchAbove?_eq hm hs (hx (by decide))
  | closer => exact matchAbove?_eq hm hs (hx (by decide))

/-- **The search for a pair never misses**, and the names of the pair can be read. -/
theorem findMatch?_eq (p : Nat) :
    P.findMatch? b p = some (P.findMatch b p) ∧
      ∀ pair ∈ P.findMatch b p, pair.Readable b.text := by
  have hs := (Scanner.next_spec (P.scanner_sound b) p).follows.sound (P.scanner_sound b)
  have hc := (continuesIf_follows hs (P.scanner.next P.dialect b p).1).sound hs
  -- an edge has no role and continues nothing, and any other token is one of the text
  have hread (hk : (P.scanner.next P.dialect b p).1.kind ≠ .edge) :
      (P.scanner.next P.dialect b p).1.Readable b.text :=
    Token.readable_of_mem (Scanner.next_mem (P.scanner_sound b) hk)
  rw [findMatch?, Scanner.next?_eq hm, Option.bind_some, continuesIf?_eq hm, Option.bind_some, findMatch_byRole]
  dsimp only
  split
  · next hcont =>
    refine openerOf?_pair hm hc (Token.readable_asElse _) (hread fun hk => ?_)
    rcases kind_of_continuesIf hcont with h | h <;> rw [hk] at h <;> cases h
  · refine matchByRole?_eq hm hc fun hrole => hread fun hk => ?_
    rw [hk, TokenKind.role_eq] at hrole
    exact hrole rfl

theorem matching?_eq (p : Nat) : P.matching? b p = some (P.matching b p) := by
  rw [matching?, classify?_eq hm, Option.bind_some, (findMatch?_eq hm p).1, Option.map_some, matching]

theorem context?_eq (p : Nat) : P.context? b p = some (P.context b p) := by
  rw [context?, allUnclosedBefore?_eq hm (P.scanner_sound b) (walk_readable _), Option.map_some, context]

end Profile

/-! ## Indentation -/

namespace Text

/-- Where the line break of the line that starts at `start` stands, or the end of the text. -/
def lineEnd? (t : Text) (start : Nat) : Option Nat :=
  (t.rest? start).map fun rest => start + size (rest.takeWhile (· ≠ '\n'))

/-- A text can be cut where a line starts. -/
theorem rest?_lineStart (t : Text) (p : Nat) : t.rest? (t.lineStart p) = some (t.lineAt p).2 := by
  obtain ⟨before, ht, hsize, -⟩ := t.lineAt_split p
  have hrest := rest?_append before (t.lineAt p).2
  rwa [← ht, hsize] at hrest

theorem slice_lineStart (t : Text) (p : Nat) : t.slice (t.lineStart p) t.size = (t.lineAt p).2 := by
  obtain ⟨before, ht, hsize, -⟩ := t.lineAt_split p
  have hrest := slice_size_append before (t.lineAt p).2
  rwa [← ht, hsize] at hrest

theorem lineEnd?_eq (t : Text) (p : Nat) : t.lineEnd? (t.lineStart p) = some (t.lineEnd (t.lineStart p)) := by
  rw [lineEnd?, rest?_lineStart, Option.map_some, lineEnd, slice_lineStart]

end Text

namespace Profile

section Definitions

variable (P : Profile) (b : Buffer)

/-- The opener whose line the line that starts with `first` is aligned with. -/
def alignedWith? (s : Scanner) (first : Token) : Option (Option Token × Scanner) :=
  (P.continuesIf? b s first).bind fun c =>
    if c.1 then P.openerOf? b c.2 first.asElse
    else if first.kind.role = .closer then P.openerOf? b c.2 first
    else if first.kind = .elseBlock then
      (P.isFlatElse? b c.2 first).bind fun flat =>
        if flat.1 then some (none, flat.2) else P.openerOf? b flat.2 first
    else some (none, c.2)

/-- The opener that the line from `start` to `stop` is aligned with. -/
def alignment? (start stop : Nat) : Option (Option Token × Scanner) :=
  (P.scanner.next? P.dialect b start).bind fun r =>
    if r.1.kind ≠ .edge && r.1.start ≤ stop then P.alignedWith? b r.2 r.1 else some (none, r.2)

/-- The indentation of the line that holds offset `p`. -/
def indentation? (p : Nat) : Option Indentation :=
  (b.text.lineStart? p).bind fun start =>
    (b.text.lineEnd? start).bind fun stop =>
      (P.alignment? b start stop).bind fun aligned =>
        aligned.1.elim
          ((P.unclosedBefore? b aligned.2 {} start).bind fun u =>
            u.1.elim (some ⟨none, 0⟩) fun o => (b.text.lineStart? o.start).map (⟨some ·, 1⟩))
          fun o => (b.text.lineStart? o.start).map (⟨some ·, 0⟩)

/-- The indentation of the line that holds offset `p`, in units.  A sum that does not fit is no cut that
    misses: it is the answer. -/
def indentOf? (p : Nat) : Option (Option Nat) :=
  (P.indentation? b p).bind fun found =>
    (found.anchor.elim (some (some 0)) fun a =>
      (b.text.rest? a).map fun rest => (P.layout.leadingColumns rest).map (· / P.layout.unit)).map
        fun base => base.bind (Arithmetic.checked.add? · found.delta)

/-- A line indented by `level` units; of a line of blanks only its ending is left. -/
def indentLine? (level : Nat) (line : Text) : Option Text :=
  let content : Text := line.dropWhile isIndent
  let body := content.trimEnd Text.isLineEnding
  if body.all isBlank then content.rest? body.size else some (P.layout.blanks level ++ content)

/-- Indents the lines that start at offset `start`, given the levels of those before by their starts. -/
def indentEach? (levels : List (Nat × Nat)) (start : Nat) : List Text → Option Text
  | [] => some []
  | line :: ls =>
    (P.indentation? b start).bind fun found =>
      let level := (found.anchor.bind (levels.lookup ·)).getD 0 + found.delta
      (P.indentLine? level line).bind fun indented =>
        (indentEach? ((start, level) :: levels) (start + line.size) ls).map (indented ++ ·)

/-- The text with every line indented as its nesting asks. -/
def reindent? (t : Text) : Option Text := P.indentEach? (Buffer.ofText t) [] 0 t.lines

end Definitions

variable {P : Profile} {b : Buffer} {s : Scanner}

/-- An indentation hangs on the start of a line. -/
theorem anchor_eq_lineStart {p a : Nat} (h : (P.indentation b p).anchor = some a) :
    ∃ q, a = b.text.lineStart q := by
  rw [indentation, findIndentation_eq] at h
  dsimp only at h
  split at h
  · cases h
    exact ⟨_, rfl⟩
  · obtain ⟨o, -, rfl⟩ := Option.map_eq_some_iff.1 h
    exact ⟨_, rfl⟩

theorem indentLine?_eq (P : Profile) (level : Nat) (line : Text) :
    P.indentLine? level line = some (P.indentLine level line) := by
  rw [indentLine?, indentLine]
  generalize line.dropWhile isIndent = content
  have hcontent := Text.trimEnd_append Text.isLineEnding content
  generalize Text.trimEnd Text.isLineEnding content = body at hcontent ⊢
  split
  · rw [← hcontent, Text.rest?_append, List.drop_left]
  · rfl

variable (hm : P.dialect.marker.head? ≠ some '\n')

include hm

theorem alignedWith?_eq (hs : s.Sound P.dialect b) {first : Token} (hx : first.Readable b.text) :
    P.alignedWith? b s first = some (P.alignedWith b s first) := by
  have hc := (continuesIf_follows hs first).sound hs
  have hflat := (isFlatElse_follows hc first).sound hc
  rw [alignedWith?, continuesIf?_eq hm, Option.bind_some, alignedWith]
  dsimp only
  split
  · exact (openerOf?_eq hm hc (Token.readable_asElse first)).1
  · split
    · exact (openerOf?_eq hm hc hx).1
    · split
      · rw [isFlatElse?_eq hm, Option.bind_some]
        split
        · rfl
        · exact (openerOf?_eq hm hflat hx).1
      · rfl

theorem alignment?_eq (start : Nat) :
    P.alignment? b start (b.text.lineEnd start) = some (P.alignment b start) := by
  have hs := (Scanner.next_spec (P.scanner_sound b) start).follows.sound (P.scanner_sound b)
  rw [alignment?, Scanner.next?_eq hm, Option.bind_some, alignment]
  split
  · next h =>
    have hk : (P.scanner.next P.dialect b start).1.kind ≠ .edge := by simpa using (Bool.and_eq_true_iff.1 h).1
    exact alignedWith?_eq hm hs (Token.readable_of_mem (Scanner.next_mem (P.scanner_sound b) hk))
  · rfl

/-- **An indentation is found for every offset.** -/
theorem indentation?_eq (p : Nat) : P.indentation? b p = some (P.indentation b p) := by
  have hs := (alignment_follows (P := P) (b := b) (b.text.lineStart p)).sound (P.scanner_sound b)
  have hunclosed := (unclosedBefore?_eq hm hs (walk_readable _) (b.text.lineStart p)).1
  rw [indentation?, Text.lineStart?_eq, Option.bind_some, Text.lineEnd?_eq, Option.bind_some,
    alignment?_eq hm, Option.bind_some, indentation, findIndentation_eq]
  dsimp only
  cases (P.alignment b (b.text.lineStart p)).1 with
  | some o => rw [Option.elim_some, Text.lineStart?_eq, Option.map_some]
  | none =>
    rw [Option.elim_none, hunclosed, Option.bind_some]
    cases (P.unclosedBefore b (P.alignment b (b.text.lineStart p)).2 {} (b.text.lineStart p)).1 with
    | none => rfl
    | some o => rw [Option.elim_some, Text.lineStart?_eq]; rfl

theorem indentOf?_eq (p : Nat) : P.indentOf? b p = some (P.indentOf b p) := by
  rw [indentOf?, indentation?_eq hm, Option.bind_some, indentOf]
  cases ha : (P.indentation b p).anchor with
  | none => rfl
  | some a =>
    obtain ⟨q, rfl⟩ := anchor_eq_lineStart ha
    rw [Option.elim_some, Text.rest?_lineStart]
    dsimp only
    rw [b.size_eq, Text.slice_lineStart]
    rfl

theorem indentEach?_eq (levels : List (Nat × Nat)) (start : Nat) (ls : List Text) :
    P.indentEach? b levels start ls = some (P.indentLines b levels start ls) := by
  induction ls generalizing levels start with
  | nil => rfl
  | cons line ls ih =>
    rw [indentEach?, indentation?_eq hm, Option.bind_some, indentLines]
    dsimp only
    rw [indentLine?_eq, Option.bind_some, ih, Option.map_some]

/-- **Indenting a text never misses.** -/
theorem reindent?_eq (t : Text) : P.reindent? t = some (P.reindent t) := indentEach?_eq hm [] 0 t.lines

end Profile

/-! ## Closing texts -/

/-- The text a token covers, cut out of the text it stands in. -/
def Token.textIn? (x : Token) (t : Text) : Option Text := t.slice? x.start x.stop

/-- A variable can be cut out of the text. -/
theorem Token.textIn?_of_var {d : Dialect} {t : Text} {x : Token} (hx : x ∈ d.tokenize t) (hk : x.kind = .var) :
    x.textIn? t = some (x.textIn t) := by
  obtain ⟨q, hq, ⟨hstop, -, -⟩ | ⟨o, n, -, -, -, -, -, hvar⟩⟩ := Dialect.exists_pieceAt_of_mem hx
  · rw [textIn?, textIn, hstop, hq.hasAt.slice?, hq.hasAt.slice]
  · exact absurd hk hvar

namespace Profile

section Definitions

variable (P : Profile) (b : Buffer)

/-- The text that closes a construct whose opener alone decides it. -/
def fixedClosing (k : TokenKind) : Except CloseError Text :=
  if k = .whileLoop ∨ k = .untilLoop then .ok (withName .nextWord none)
  else if k = .ifBlock then .ok (withName .endWord (some Keyword.ifWord.spelling))
  else if k = .sub then .ok (withName .endWord (some Keyword.subWord.spelling))
  else if k = .gsave then .ok (withName .grestoreWord none)
  else .error .noConstruct

/-- The text that closes the construct `opener` opens. -/
def closingOf? (s : Scanner) (opener : Token) : Option (Except CloseError Text) :=
  if opener.kind = .forLoop then
    (s.next? P.dialect b opener.stop).bind fun r =>
      if r.1.kind = .var then (r.1.textIn? b.text).map fun var => .ok (withName .nextWord (some var))
      else some (.ok (withName .nextWord none))
  else if opener.kind = .beginBlock then
    (opener.nameIn? b.text).map fun name => .ok (withName .endWord name)
  else some (fixedClosing opener.kind)

/-- The text that closes the innermost construct open at offset `p`. -/
def closingText? (p : Nat) : Option (Except CloseError Text) :=
  (P.unclosedBefore? b P.scanner {} (min p b.size)).bind fun u =>
    u.1.elim (some (.error .noConstruct)) fun opener =>
      u.2.1.mismatch.elim (P.closingOf? b u.2.2 opener) fun pair =>
        (pair.1.nameIn? b.text).bind fun begun =>
          (pair.2.nameIn? b.text).map fun ended =>
            .error (.mismatch (begun.getD []) (ended.getD []) pair.2.start)

end Definitions

variable {P : Profile} {b : Buffer} (hm : P.dialect.marker.head? ≠ some '\n')

/-- What closes a construct, its opener found and no pair before it that differs. -/
theorem closingText_of_unclosed {p : Nat} {opener : Token} {w : Walk} {s : Scanner}
    (h : P.unclosedBefore b P.scanner {} (min p b.size) = (some opener, w, s)) (hw : w.mismatch = none) :
    P.closingText b p =
      if opener.kind = .forLoop then
        .ok (withName .nextWord (if (s.next P.dialect b opener.stop).1.kind = .var then
          some ((s.next P.dialect b opener.stop).1.textIn b.text) else none))
      else if opener.kind = .beginBlock then .ok (withName .endWord (opener.name.map Name.text))
      else fixedClosing opener.kind := by
  simp only [closingText, h, hw]
  cases opener.kind <;> rfl

include hm

/-- **A closing text, or the reason for none, is found for every offset.** -/
theorem closingText?_eq (p : Nat) : P.closingText? b p = some (P.closingText b p) := by
  obtain ⟨heq, hopener, hw, hs⟩ :=
    unclosedBefore?_eq hm (P.scanner_sound b) (walk_readable b.text) (min p b.size)
  rw [closingText?, heq, Option.bind_some]
  rcases hu : P.unclosedBefore b P.scanner {} (min p b.size) with ⟨_ | opener, w, s⟩
  · simp only [closingText, hu, Option.elim_none]
  · rw [hu] at hopener hw hs
    dsimp only at hopener hw hs ⊢
    have hread := hopener opener rfl
    cases hmis : w.mismatch with
    | some pair =>
      obtain ⟨hbegun, hended⟩ := hw.mismatch pair hmis
      simp only [closingText, hu, hmis, Option.elim_some, hbegun.nameIn?, hended.nameIn?, Option.bind_some,
        Option.map_some, Token.nameText]
    | none =>
      rw [Option.elim_some, Option.elim_none, closingText_of_unclosed hu hmis, closingOf?]
      split
      · rw [Scanner.next?_eq hm, Option.bind_some]
        split
        · next hk =>
          have hne : (s.next P.dialect b opener.stop).1.kind ≠ .edge := by rw [hk]; decide
          rw [Token.textIn?_of_var (Scanner.next_mem hs hne) hk, Option.map_some]
        · rfl
      · split
        · rw [hread.nameIn?, Option.map_some]
        · rfl

end Profile

/-! ## Names of blocks -/

namespace Profile

section Definitions

variable (P : Profile)

/-- The edit that gives `target` the name of `source`. -/
def renaming? (t : Text) (source target : Token) : Option (Option Edit) :=
  (source.nameIn? t).map fun name =>
    name.map fun word =>
      target.name.elim ⟨target.stop, target.stop, ' ' :: word⟩ fun old => ⟨old.start, old.stop, word⟩

/-- The edit that gives the partner of the `begin` or `end` at offset `p` the same name. -/
def renameEdit? (b : Buffer) (p : Nat) : Option (Option Edit) :=
  (P.classify? b p).bind fun x =>
    if x.kind = .beginBlock ∨ x.kind = .endThing then
      (P.findMatch? b p).bind fun found =>
        found.elim (some none) fun pair =>
          if pair.opener.kind = .beginBlock then
            (P.namesDiffer? b.text pair.opener pair.closer).bind fun differ =>
              if differ then
                if pair.opener = x then renaming? b.text pair.opener pair.closer
                else renaming? b.text pair.closer pair.opener
              else some none
          else some none
    else some none

/-- A pair with its two names, empty where there is none. -/
def withNames? (t : Text) (pair : Pair) : Option (Pair × Text × Text) :=
  (pair.opener.nameIn? t).bind fun begun =>
    (pair.closer.nameIn? t).map fun ended => (pair, begun.getD [], ended.getD [])

/-- What the token `x` in its role adds to the report while `pending` are open, and what is open after it. -/
def reported? (t : Text) (pending : List Token) (role : Role) (x : Token) :
    Option (List (Pair × Text × Text) × List Token) :=
  match role with
  | .opener => some ([], x :: pending)
  | .closer =>
    (popFirst? (P.accepts? t · x) pending).bind fun popped =>
      popped.elim (some ([], pending)) fun taken =>
        (P.namesDiffer? t taken.1 x).bind fun differ =>
          if differ then (withNames? t ⟨taken.1, x⟩).map fun named => ([named], taken.2)
          else some ([], taken.2)
  | _ => some ([], pending)

/-- The pairs with differing names among tokens that follow one of kind `previous`, while the openers
    `pending` are open, innermost first. -/
def mismatchesFrom? (t : Text) (previous : TokenKind) (pending : List Token) :
    List Token → Option (List (Pair × Text × Text))
  | [] => some []
  | x :: xs =>
    (P.reported? t pending (if x.kind = .ifBlock ∧ previous = .elseLine then .inner else x.kind.role) x).bind
      fun found => (mismatchesFrom? t x.kind found.2 xs).map (found.1 ++ ·)

/-- The `begin`/`end` pairs of a text whose names differ, with those names. -/
def nameMismatches? (t : Text) : Option (List (Pair × Text × Text)) :=
  (P.dialect.tokens? t).bind (P.mismatchesFrom? t .edge [])

end Definitions

/-- A pair with its two names. -/
def withNames (pair : Pair) : Pair × Text × Text := (pair, pair.opener.nameText, pair.closer.nameText)

variable {P : Profile} {t : Text}

theorem withNames?_eq {pair : Pair} (h : pair.Readable t) : withNames? t pair = some (withNames pair) := by
  rw [withNames?, h.opener.nameIn?, h.closer.nameIn?]
  rfl

theorem renaming?_eq {source : Token} (h : source.Readable t) (target : Token) :
    renaming? t source target = some (source.name.map fun name =>
      target.name.elim ⟨target.stop, target.stop, ' ' :: name.text⟩ fun old =>
        ⟨old.start, old.stop, name.text⟩) := by
  rw [renaming?, h.nameIn?, Option.map_some, Option.map_map]
  rfl

/-- The report over tokens that can be read never misses. -/
theorem mismatchesFrom?_eq {ts : List Token} (hts : ∀ x ∈ ts, x.Readable t) (previous : Option Token)
    {pending : List Token} (hpending : ∀ x ∈ pending, x.Readable t) :
    P.mismatchesFrom? t (previous.elim .edge Token.kind) pending ts =
      some ((P.mismatchesFrom (previous.elim .edge Token.kind) pending ts).map withNames) := by
  induction ts generalizing previous pending with
  | nil => rfl
  | cons x ts ih =>
    have hx := hts x (List.mem_cons_self ..)
    -- the report behind this token, whatever is open there
    have hrest {open' : List Token} (hopen : ∀ y ∈ open', y.Readable t) :
        P.mismatchesFrom? t x.kind open' ts = some ((P.mismatchesFrom x.kind open' ts).map withNames) :=
      ih (fun y hy => hts y (List.mem_cons_of_mem _ hy)) (some x) hopen
    have hrole : (if x.kind = .ifBlock ∧ previous.elim .edge Token.kind = .elseLine then .inner
        else x.kind.role) = x.roleAfter previous := by
      simp only [elim_kind_eq_elseLine, Token.roleAfter]
    rw [mismatchesFrom?, hrole, mismatchesFrom_cons]
    cases x.roleAfter previous with
    | inner | neutral =>
      show (P.mismatchesFrom? t x.kind pending ts).map _ = _
      rw [hrest hpending]
      rfl
    | opener =>
      show (P.mismatchesFrom? t x.kind (x :: pending) ts).map _ = _
      rw [hrest (by simpa [hx] using hpending)]
      rfl
    | closer =>
      have hpop : popFirst? (P.accepts? t · x) pending = some (popFirst (P.accepts · x) pending) :=
        popFirst?_eq fun o _ => accepts?_eq hx
      rw [reported?, hpop, Option.bind_some]
      cases hpopped : popFirst (P.accepts · x) pending with
      | none =>
        rw [Option.elim_none, Option.bind_some, hrest hpending]
        rfl
      | some taken =>
        obtain ⟨o, rest⟩ := taken
        obtain ⟨-, above, rfl⟩ := popFirst_split hpopped
        have ho : o.Readable t := hpending o (by simp)
        have hleft : ∀ y ∈ rest, y.Readable t := fun y hy => hpending y (by simp [hy])
        rw [Option.elim_some, namesDiffer?_eq ho hx, Option.bind_some]
        show _ = some (([⟨o, x⟩].filter P.differs ++ P.mismatchesFrom x.kind rest ts).map withNames)
        by_cases hdiffer : P.namesDiffer o x
        · have hkept : [⟨o, x⟩].filter P.differs = [⟨o, x⟩] := List.filter_cons_of_pos hdiffer
          rw [if_pos hdiffer, withNames?_eq ⟨ho, hx⟩, Option.map_some, Option.bind_some, hrest hleft,
            Option.map_some, hkept]
          rfl
        · have hkept : [⟨o, x⟩].filter P.differs = [] := List.filter_cons_of_neg hdiffer
          rw [if_neg hdiffer, Option.bind_some, hrest hleft, Option.map_some, hkept]
          rfl

variable {b : Buffer} (hm : P.dialect.marker.head? ≠ some '\n')

include hm

/-- **The report of names that differ never misses.** -/
theorem nameMismatches?_eq (t : Text) :
    P.nameMismatches? t = some ((P.nameMismatches t).map withNames) := by
  rw [nameMismatches?, Dialect.tokens?_eq hm, Option.bind_some]
  exact mismatchesFrom?_eq (fun x hx => Token.readable_of_mem hx) none (fun x hx => (by cases hx))

/-- **The edit that carries a name over never misses.** -/
theorem renameEdit?_eq (p : Nat) : P.renameEdit? b p = some (P.renameEdit b p) := by
  obtain ⟨heq, hread⟩ := findMatch?_eq (b := b) hm p
  rw [renameEdit?, classify?_eq hm, Option.bind_some, heq, Option.bind_some, renameEdit]
  by_cases hkind : (P.classify b p).kind = .beginBlock ∨ (P.classify b p).kind = .endThing
  swap
  · rw [if_neg hkind]
    simp [hkind]
  cases hfound : P.findMatch b p with
  | none => simp [hkind]
  | some pair =>
    obtain ⟨ho, hc⟩ := hread pair hfound
    rw [if_pos hkind, Option.elim_some, namesDiffer?_eq ho hc, Option.bind_some, renaming?_eq ho,
      renaming?_eq hc]
    by_cases hopens : pair.opener.kind = .beginBlock
    swap
    · simp [hkind, hopens]
    cases hdiffer : P.namesDiffer pair.opener pair.closer with
    | false => simp [hdiffer]
    | true =>
      by_cases hcaret : pair.opener = P.classify b p
      · cases hn : pair.opener.name <;> cases ht : pair.closer.name <;>
          simp_all
      · cases hn : pair.closer.name <;> cases ht : pair.opener.name <;>
          simp_all

end Profile

end BlockScript
