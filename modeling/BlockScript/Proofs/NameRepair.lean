/-
  Giving the partner of a `begin` or `end` its name repairs the pair.

  1. **The buffer** (`Splice.OnLine.twins`): the edit changes one line.  The lines above it stay, those below
     it are moved, and with the tokens of the changed line related one by one the two buffers are twins.
  2. **The tokens** (`before_opener`, `before_closer`): on the changed line the token that is named differs in
     its name, and those before it in nothing but the kinds of `if`s that have no `then` before it.
  3. **The search** (`repair_forward`, `repair_back`): it passes only what stands between the pair.  From
     the `end` back to a `begin` that is named nothing of that changes.  From the `begin` on to an `end` that
     is named, the new name must leave the `end` to a `begin`, and must not be taken for the `then` that an
     `if` before it is waiting for.

  What fails otherwise is shown by `renameEdit_misses`.
-/
import BlockScript.Proofs.RenamedLine
import BlockScript.Proofs.ScanTransfer
import BlockScript.Proofs.TextBelow
import Mathlib.Data.Option.Basic

namespace BlockScript

/-! ## Buffers that differ in a line -/

/-- A line stays a line when something in it changes that is no break. -/
theorem Text.IsLine.change {u w r z rest : Text} (h : IsLine (u ++ (w ++ z)) rest)
    (hw : ∀ c ∈ u ++ w ++ r, c ≠ '\n') : IsLine (u ++ (r ++ z)) rest := by
  simp only [List.mem_append] at hw
  rcases h with ⟨line, hline, heq⟩ | ⟨hline, hrest⟩
  · -- the break is the last character of `z`
    have hz : z ≠ [] := by
      rintro rfl
      have hmem : '\n' ∈ u ++ (w ++ []) := by
        rw [heq]
        simp
      rw [List.append_nil, List.mem_append] at hmem
      exact hw '\n' (.inl hmem) rfl
    obtain ⟨z, c, rfl⟩ : ∃ z' c, z = z' ++ [c] := ⟨_, _, (List.dropLast_append_getLast hz).symm⟩
    rw [← List.append_assoc, ← List.append_assoc] at heq
    obtain ⟨rfl, hc⟩ := List.append_inj' heq rfl
    obtain rfl : c = '\n' := by simpa using hc
    refine .inl ⟨u ++ (r ++ z), fun x hx => ?_, by simp⟩
    simp only [List.mem_append] at hx hline
    rcases hx with hx | hx | hx
    · exact hline x (.inl (.inl hx))
    · exact hw x (.inr hx)
    · exact hline x (.inr hx)
  · refine .inr ⟨fun x hx => ?_, hrest⟩
    simp only [List.mem_append] at hx hline
    rcases hx with hx | hx | hx
    · exact hline x (.inl hx)
    · exact hw x (.inr hx)
    · exact hline x (.inr (.inr hx))

/-- The line `n` bytes further on. -/
def TokenLine.shift (n : Nat) (l : TokenLine) : TokenLine := ⟨l.start + n, l.stop + n, l.tokens.map (.shift n)⟩

namespace Dialect

variable {d : Dialect} {a line line' rest t : Text} {q : Nat}

/-- The tokens of a line do not depend on what follows it. -/
theorem pieces_line (hm : '\n' ∉ d.marker) (h : Text.IsLine line rest) :
    (d.pieces none (line ++ rest)).1 = (d.pieces none line).1 := by
  rcases h with ⟨w, hw, rfl⟩ | ⟨-, rfl⟩
  · rw [List.append_assoc, List.singleton_append, pieces_break hm none hw, pieces_break hm none hw]
  · rw [List.append_nil]

/-- The line of the offsets that a line takes. -/
theorem lineAt_line (hm : '\n' ∉ d.marker) (ha : a.EndsLine) (h : Text.IsLine line rest)
    (h1 : a.size ≤ q) (h2 : q < a.size + line.size) :
    d.lineAt (.ofText (a ++ (line ++ rest))) q =
      ⟨a.size, a.size + line.size, d.tokensOf (place a.size (d.pieces none line).1)⟩ := by
  have hsize : q < Text.size (a ++ (line ++ rest)) := by
    rw [Text.size_append, Text.size_append]
    omega
  have hat := Text.lineAt_append ha h1 (by rwa [h.firstLine]) hsize
  have htotal : Piece.totalSize (d.pieces none line).1 = line.size := by
    rw [Piece.totalSize, d.pieces_text, h.firstLine_eq]
  simp only [lineAt, Buffer.ofText_text, hat, pieces_line hm h, htotal]

/-- No line reaches over the end of the text. -/
theorem lineAt_stop_le (d : Dialect) (t : Text) (q : Nat) : (d.lineAt (.ofText t) q).stop ≤ t.size := by
  obtain ⟨before, ht, hstart, -⟩ := t.lineAt_split q
  have hpieces := congrArg Text.size (d.pieces_append none (t.lineAt q).2)
  have hsize := congrArg Text.size ht
  rw [Text.size_append] at hpieces hsize
  show (t.lineAt q).1 + Text.size ((d.pieces none (t.lineAt q).2).1.flatMap Piece.text) ≤ t.size
  omega

/-- Behind lines a text has its lines further on. -/
theorem lineAt_below (d : Dialect) (ha : a.EndsLine) (hq : q < t.size) :
    d.lineAt (.ofText (a ++ t)) (a.size + q) = (d.lineAt (.ofText t) q).shift a.size := by
  obtain ⟨before, ht, hstart, hends⟩ := t.lineAt_split q
  have hle := t.lineAt_start_le q
  have hlt := Text.lineAt_lt_stop hq
  generalize hl : t.lineAt q = l at ht hstart hle hlt
  obtain ⟨start, more⟩ := l
  dsimp only at ht hstart hle hlt
  subst hstart
  have hends' : Text.EndsLine (a ++ before) := by
    rcases hends with rfl | hlast
    · rwa [List.append_nil]
    · exact .inr (by rw [List.getLast?_append, hlast]; rfl)
  have hat : Text.lineAt (a ++ t) (a.size + q) = (a.size + before.size, more) := by
    have hall : a ++ t = (a ++ before) ++ more := by rw [List.append_assoc, ← ht]
    rw [hall, ← Text.size_append]
    refine Text.lineAt_append hends' ?_ ?_ ?_
    · rw [Text.size_append]
      omega
    · rw [Text.size_append]
      omega
    · rw [← hall, Text.size_append]
      omega
  have hmove : place (a.size + before.size) (d.pieces none more).1 =
      (place before.size (d.pieces none more).1).map (Lexeme.shift a.size) := by
    rw [Nat.add_comm, place_shift]
  simp only [lineAt, Buffer.ofText_text, hat, hl, TokenLine.shift, hmove, tokensOf_shift]
  congr 1 <;> omega

end Dialect

/-- A line that is changed in a text: `line` stands behind the lines `a`, becomes `line'`, and the offsets
    inside it change as the splice says. -/
structure Splice.OnLine (g : Splice) (a line line' rest : Text) : Prop where
  above : a.EndsLine
  isLine : Text.IsLine line rest
  isLine' : Text.IsLine line' rest
  start : a.size ≤ g.start
  stop : g.oldStop ≤ a.size + line.size
  size : a.size + line'.size = g.move (a.size + line.size)

namespace Splice.OnLine

variable {d : Dialect} {g : Splice} {a line line' rest : Text} {R : Token → Token → Prop} {q : Nat}

/-- Offsets below the line move with what stands there. -/
theorem move_below (h : g.OnLine a line line' rest) (q : Nat) :
    g.move (q + (a.size + line.size)) = q + (a.size + line'.size) ∧ g.Outside (q + (a.size + line.size)) := by
  have hstop := h.stop
  have hsize := h.size
  rw [g.move_of_ge hstop] at hsize
  rw [g.move_of_ge (by omega)]
  exact ⟨by omega, .inr (by omega)⟩

theorem line_above (h : g.OnLine a line line' rest) (hm : '\n' ∉ d.marker)
    (habove : ∀ x ∈ d.tokenize a, R x x) (hq : q < a.size) (t t' : Text) :
    (d.lineAt (.ofText (a ++ t)) q).Twin g R
      (d.lineAt (.ofText (a ++ t')) (g.move (d.lineAt (.ofText (a ++ t)) q).start)) := by
  have hstart := h.start
  have hle := d.lineAt_start_le (.ofText a) q
  have hends := d.lineAt_stop_le a q
  have hlt := d.lineAt_lt_stop (b := .ofText a) hq
  have hmove := g.move_of_le (p := (d.lineAt (.ofText a) q).start) (by omega)
  have hsame : d.lineAt (.ofText a) (d.lineAt (.ofText a) q).start = d.lineAt (.ofText a) q :=
    d.lineAt_eq_of_holds (Nat.lt_of_le_of_lt hle hq) (Nat.le_refl _) (by omega)
  rw [Dialect.lineAt_above hm h.above hq, hmove, Dialect.lineAt_above hm h.above (by omega), hsame]
  refine ⟨hmove.symm, (g.move_of_le (by omega)).symm, .inl (by omega), .inl (by omega), ?_⟩
  exact List.forall₂_same.2 fun x hx => habove x (d.mem_of_mem_lineAt hq hx)

theorem line_here (h : g.OnLine a line line' rest) (hm : '\n' ∉ d.marker)
    (hline : List.Forall₂ R (d.tokensOf (place a.size (d.pieces none line).1))
      (d.tokensOf (place a.size (d.pieces none line').1)))
    (h1 : a.size ≤ q) (h2 : q < a.size + line.size) :
    (d.lineAt (.ofText (a ++ (line ++ rest))) q).Twin g R
      (d.lineAt (.ofText (a ++ (line' ++ rest)))
        (g.move (d.lineAt (.ofText (a ++ (line ++ rest))) q).start)) := by
  have hsize := h.size
  have hne : a.size < a.size + line'.size := by
    have := g.new
    have := h.start
    rw [g.move_of_ge h.stop] at hsize
    omega
  rw [Dialect.lineAt_line hm h.above h.isLine h1 h2]
  dsimp only
  rw [g.move_of_le h.start, Dialect.lineAt_line hm h.above h.isLine' (Nat.le_refl _) hne]
  exact ⟨(g.move_of_le h.start).symm, hsize, .inl h.start, .inr h.stop, hline⟩

theorem line_below (h : g.OnLine a line line' rest)
    (hbelow : ∀ x ∈ d.tokenize rest, R (x.shift (a.size + line.size)) (x.shift (a.size + line'.size)))
    (hq : q < rest.size) :
    (d.lineAt (.ofText (a ++ (line ++ rest))) (a.size + line.size + q)).Twin g R
      (d.lineAt (.ofText (a ++ (line' ++ rest)))
        (g.move (d.lineAt (.ofText (a ++ (line ++ rest))) (a.size + line.size + q)).start)) := by
  have hends : ∀ {l : Text}, l.IsLine rest → (a ++ l).EndsLine := by
    intro l hl
    have hbreak := hl.getLast? (by rintro rfl; simp at hq)
    exact .inr (by rw [List.getLast?_append, hbreak]; rfl)
  have hle := d.lineAt_start_le (.ofText rest) q
  have hlt := d.lineAt_lt_stop (b := .ofText rest) hq
  have hsame : d.lineAt (.ofText rest) (d.lineAt (.ofText rest) q).start = d.lineAt (.ofText rest) q :=
    d.lineAt_eq_of_holds (Nat.lt_of_le_of_lt hle hq) (Nat.le_refl _) (by omega)
  have hold : d.lineAt (.ofText (a ++ (line ++ rest))) (a.size + line.size + q) =
      (d.lineAt (.ofText rest) q).shift (a.size + line.size) := by
    rw [← List.append_assoc, ← Text.size_append]
    exact d.lineAt_below (hends h.isLine) hq
  have hnew : d.lineAt (.ofText (a ++ (line' ++ rest)))
      ((d.lineAt (.ofText rest) q).start + (a.size + line'.size)) =
      (d.lineAt (.ofText rest) q).shift (a.size + line'.size) := by
    rw [← List.append_assoc, ← Text.size_append, Nat.add_comm _ (Text.size _),
      d.lineAt_below (hends h.isLine') (Nat.lt_of_le_of_lt hle hq), hsame]
  obtain ⟨hstart, hstartOut⟩ := h.move_below (d.lineAt (.ofText rest) q).start
  obtain ⟨hstop, hstopOut⟩ := h.move_below (d.lineAt (.ofText rest) q).stop
  rw [hold]
  show TokenLine.Twin g R _
    (d.lineAt _ (g.move ((d.lineAt (.ofText rest) q).start + (a.size + line.size))))
  rw [hstart, hnew]
  refine ⟨hstart.symm, hstop.symm, hstartOut, hstopOut, ?_⟩
  show List.Forall₂ R (List.map _ _) (List.map _ _)
  rw [List.forall₂_map_left_iff, List.forall₂_map_right_iff]
  exact List.forall₂_same.2 fun x hx => hbelow x (d.mem_of_mem_lineAt hq hx)

/-- **Two texts that differ in a line** are twins if the tokens of the line are related one by one, and so
    are the tokens above it to themselves and those below it to what they are moved to. -/
theorem twins (h : g.OnLine a line line' rest) (hm : '\n' ∉ d.marker)
    (hmoved : ∀ x x', R x x' → x.Moved g x') (habove : ∀ x ∈ d.tokenize a, R x x)
    (hline : List.Forall₂ R (d.tokensOf (place a.size (d.pieces none line).1))
      (d.tokensOf (place a.size (d.pieces none line').1)))
    (hbelow : ∀ x ∈ d.tokenize rest, R (x.shift (a.size + line.size)) (x.shift (a.size + line'.size))) :
    Twins d g R (.ofText (a ++ (line ++ rest))) (.ofText (a ++ (line' ++ rest))) := by
  have hsize : ∀ l : Text, Text.size (a ++ (l ++ rest)) = rest.size + (a.size + l.size) := by
    intro l
    rw [Text.size_append, Text.size_append]
    omega
  obtain ⟨hend, hendOut⟩ := h.move_below rest.size
  refine ⟨hmoved, ?_, ?_, fun q hq => ?_⟩
  · rw [Buffer.ofText_size, hsize]
    exact hendOut
  · rw [Buffer.ofText_size, Buffer.ofText_size, hsize, hsize, hend]
  · rw [Buffer.ofText_size, hsize] at hq
    by_cases h1 : q < a.size
    · exact h.line_above hm habove h1 _ _
    · by_cases h2 : q < a.size + line.size
      · exact h.line_here hm hline (by omega) h2
      · have hsplit : q = a.size + line.size + (q - (a.size + line.size)) := by omega
        rw [hsplit]
        exact h.line_below hbelow (by omega)

end Splice.OnLine

/-! ## Tokens that a new name leaves alone -/

namespace Dialect

variable {d : Dialect} {a rest : Text} {p : Nat} {x x' : Token} {v u w r z : Text}
  {before before' behind ts ts' : List Token}

/-- Relating reread tokens: those that keep their kind, and the `if`s with no `then` behind them. -/
theorem Reread.forall₂ {R : Token → Token → Prop} (h : d.Reread ts ts') (hkeep : ∀ y ∈ ts, R y y)
    (hturn : ∀ pre y post k, ts = pre ++ y :: post → y.isIf → (∀ s ∈ post, d.saysThen s = false) →
      R y { y with kind := k }) :
    List.Forall₂ R ts ts' := by
  induction h with
  | nil => exact .nil
  | @keep y ts ts' _ ih =>
    refine .cons (hkeep y (List.mem_cons_self ..)) (ih (fun s hs => hkeep s (List.mem_cons_of_mem _ hs)) ?_)
    rintro pre s post k rfl
    exact hturn (y :: pre) s post k rfl
  | @turn y hy k ts ts' hthen _ ih =>
    refine .cons (hturn [] y ts k rfl hy hthen) (ih (fun s hs => hkeep s (List.mem_cons_of_mem _ hs)) ?_)
    rintro pre s post k rfl
    exact hturn (y :: pre) s post k rfl

/-- The stretch of a line in which a token gets a name: the token. -/
def Renaming.splice (h : d.Renaming p x v u w r z x' before before' behind) : Splice where
  start := x.start
  oldStop := x.stop
  newStop := x'.stop
  old := by
    have := h.within
    have := h.stop
    omega
  new := by
    have := h.within
    have := h.stop'
    omega

/-- The token and those before it, in their places on the line. -/
theorem Renaming.laid (h : d.Renaming p x v u w r z x' before before' behind) :
    Laid Token.start Token.stop x.start p before ∧ x.start < x.stop := by
  have hlaid := d.tokensOf_laid p none (u ++ (w ++ z))
  rw [h.tokens] at hlaid
  exact ⟨hlaid.split.1, hlaid.split.2.1⟩

theorem Renaming.onLine (h : d.Renaming a.size x v u w r z x' before before' behind) (ha : a.EndsLine)
    (hline : Text.IsLine (u ++ (w ++ z)) rest) :
    h.splice.OnLine a (u ++ (w ++ z)) (u ++ (r ++ z)) rest where
  above := ha
  isLine := hline
  isLine' := hline.change h.noBreak
  start := h.laid.1.le
  stop := by
    show x.stop ≤ _
    rw [h.stop, Text.size_append, Text.size_append]
    omega
  size := by
    have hstop : h.splice.oldStop = a.size + u.size + w.size := h.stop
    have hstop' : h.splice.newStop = a.size + u.size + r.size := h.stop'
    have hsize : a.size + Text.size (u ++ (w ++ z)) = h.splice.oldStop + z.size := by
      rw [hstop, Text.size_append, Text.size_append]
      omega
    rw [hsize, h.splice.move_of_ge (Nat.le_add_right ..), hstop', Text.size_append, Text.size_append]
    omega

/-- The tokens of a text around one of its lines. -/
theorem tokenize_line (hm : '\n' ∉ d.marker) (ha : a.EndsLine) {line : Text} (hline : Text.IsLine line rest)
    (hne : line ≠ []) :
    d.tokenize (a ++ (line ++ rest)) = d.tokenize a ++
      (d.tokensOf (place a.size (d.pieces none line).1) ++ d.tokenizeFrom (a.size + line.size) rest) := by
  rw [tokenize, tokenizeFrom_append_lines hm ha, tokenizeFrom_line hm hline hne, Nat.zero_add]
  rfl

end Dialect

namespace Profile

variable {P : Profile} {a rest : Text} {o x x' y y' : Token} {v u w r z : Text}
  {before before' behind : List Token} {g : Splice}

/-- What the tokens of a script have become once `x` is named `v`.  Their kinds and names count from `o`
    on. -/
structure Renamed (P : Profile) (g : Splice) (o x : Token) (v : Text) (y y' : Token) : Prop
    extends y.Moved g y' where
  alike : o.start < y.stop → P.Alike y y'
  name : o.start < y.stop → y'.name.map Name.text = if y = x then some v else y.name.map Name.text

theorem Alike.of_name (hkind : y'.kind = y.kind) (hname : y'.name.map Name.text = y.name.map Name.text) :
    P.Alike y y' where
  kind := hkind
  family _ := by rw [Token.nameText, Token.nameText, hname]

/-- A token before the stretch that may have another kind if it stands before `o`. -/
theorem Renamed.of_before (hstop : y.stop ≤ g.start) (hlt : y.start < y.stop) (hne : y ≠ x) (k : TokenKind)
    (hk : o.start < y.stop → k = y.kind) : P.Renamed g o x v y { y with kind := k } where
  start := (g.move_of_le (p := y.start) (by omega)).symm
  stop := (g.move_of_le hstop).symm
  startOut := .inl (by omega)
  stopOut := .inl hstop
  alike hfloor := .of_name (hk hfloor) rfl
  name _ := by rw [if_neg hne]

/-- A token behind the stretch. -/
theorem Renamed.of_behind {n n' : Nat} (hmove : ∀ q, g.move (q + n) = q + n' ∧ g.Outside (q + n))
    (hne : y.shift n ≠ x) : P.Renamed g o x v (y.shift n) (y.shift n') where
  start := (hmove y.start).1.symm
  stop := (hmove y.stop).1.symm
  startOut := (hmove y.start).2
  stopOut := (hmove y.stop).2
  alike _ := .of_name rfl (by simp [Token.shift, Function.comp_def])
  name _ := by
    rw [if_neg hne]
    simp [Token.shift, Function.comp_def]

/-- **The buffer with a token named**, as far as searches from `o` on are concerned. -/
theorem carries_renamed (hd : P.dialect.marker = ['#'])
    (h : P.dialect.Renaming a.size x v u w r z x' before before' behind) (ha : a.EndsLine)
    (hline : Text.IsLine (u ++ (w ++ z)) rest)
    (ho : o ∈ P.dialect.tokenize (a ++ (u ++ (w ++ z) ++ rest)))
    (hfamily : x.kind = .endThing → P.endFamily v = P.endFamily x.nameText)
    (hbefore : List.Forall₂ (P.Renamed h.splice o x v) before before') :
    P.Carries h.splice (P.Renamed h.splice o x v) (.ofText (a ++ (u ++ (w ++ z) ++ rest)))
      (.ofText (a ++ (u ++ (r ++ z) ++ rest))) o := by
  have hm : '\n' ∉ P.dialect.marker := by simp [hd]
  obtain ⟨hpre, hself⟩ := h.laid
  have hstart : a.size ≤ x.start := hpre.le
  have hon := h.onLine ha hline
  have hstop := hon.stop
  have hself' : P.Renamed h.splice o x v x x' := {
    start := by
      rw [h.start]
      exact (h.splice.move_of_le (p := x.start) (Nat.le_refl _)).symm
    stop := by
      rw [h.splice.move_of_ge (p := x.stop) (Nat.le_refl _)]
      show x'.stop = x.stop - x.stop + x'.stop
      omega
    startOut := .inl (Nat.le_refl _)
    stopOut := .inr (Nat.le_refl _)
    alike := fun _ => ⟨h.kind, fun hk => by
      rw [← hfamily hk, Token.nameText, h.name]
      rfl⟩
    name := fun _ => by rw [if_pos rfl, h.name] }
  have hbehind : ∀ q, h.splice.move (q + x.stop) = q + x'.stop ∧ h.splice.Outside (q + x.stop) := by
    intro q
    rw [h.splice.move_of_ge (p := q + x.stop) (Nat.le_add_left ..)]
    refine ⟨?_, .inr (Nat.le_add_left ..)⟩
    show q + x.stop - x.stop + x'.stop = q + x'.stop
    omega
  refine { toTwins := hon.twins hm (fun y y' hy => hy.toMoved) ?_ ?_ ?_, floor := ho, alike := ?_ }
  · -- above the line
    intro y hy
    obtain ⟨-, hlt, hle⟩ := (P.dialect.tokenize_laid a).bounds hy
    refine .of_before (Nat.le_trans hle hstart) hlt ?_ y.kind fun _ => rfl
    rintro rfl
    omega
  · rw [h.tokens, h.tokens']
    refine List.rel_append hbefore (.cons hself' ?_)
    rw [List.forall₂_map_left_iff, List.forall₂_map_right_iff]
    refine List.forall₂_same.2 fun y _ => .of_behind hbehind ?_
    intro heq
    have : y.start + x.stop = x.start := congrArg Token.start heq
    omega
  · -- below it
    intro y _
    refine .of_behind hon.move_below ?_
    intro heq
    have : y.start + _ = x.start := congrArg Token.start heq
    have : x.stop ≤ a.size + Text.size (u ++ (w ++ z)) := hstop
    omega
  · exact fun y y' hy hfloor => hy.alike hfloor

/-- A token before the one that is named, on its line. -/
theorem Renamed.of_mem_before (h : P.dialect.Renaming a.size x v u w r z x' before before' behind)
    (hy : y ∈ before) (k : TokenKind) (hk : o.start < y.stop → k = y.kind) :
    P.Renamed h.splice o x v y { y with kind := k } := by
  obtain ⟨hpre, hself⟩ := h.laid
  obtain ⟨-, hlt, hle⟩ := hpre.bounds hy
  refine .of_before hle hlt ?_ k hk
  rintro rfl
  omega

/-- Naming an opener: whatever an `if` before it has become, it stands before it. -/
theorem before_opener (h : P.dialect.Renaming a.size x v u w r z x' before before' behind) :
    List.Forall₂ (P.Renamed h.splice x x v) before before' := by
  refine h.reread.forall₂ (fun y hy => .of_mem_before h hy y.kind fun _ => rfl) ?_
  rintro pre y post k rfl - -
  have hy : y ∈ pre ++ y :: post := by simp
  obtain ⟨-, -, hle⟩ := h.laid.1.bounds hy
  exact .of_mem_before h hy k fun hfloor => by omega

/-- Whether `y` is an `if` that at the token `c` still waits for its `then`: it stands before it on its
    line, and no `then` stands between the two. -/
def WaitsAt (P : Profile) (t : Text) (y c : Token) : Prop :=
  y.isIf ∧ y.stop ≤ c.start ∧ t.lineStart y.start = t.lineStart c.start ∧
    ∀ s ∈ P.tokenize t, y.stop ≤ s.start → s.stop ≤ c.start → P.dialect.saysThen s = false

instance (P : Profile) (t : Text) (y c : Token) : Decidable (P.WaitsAt t y c) :=
  inferInstanceAs (Decidable (_ ∧ _ ∧ _ ∧ _))

/-- Whether the `end` `c` can take the name of the `begin` `o` that it closes.  Named `if` or `sub` it
    would close another construct.  Named `then` it would be taken for the `then` of an `if` that waits
    for one, and so is an `end then` that loses its name. -/
structure TakesName (P : Profile) (t : Text) (o c : Token) : Prop where
  notIf : P.dialect.isKeyword o.nameText .ifWord = false
  notSub : P.dialect.isKeyword o.nameText .subWord = false
  notThen : ∀ y ∈ P.tokenize t, o.stop ≤ y.start → P.WaitsAt t y c →
    P.dialect.isKeyword o.nameText .thenWord = false ∧ P.dialect.isKeyword c.nameText .thenWord = false

theorem takesName_iff (P : Profile) (t : Text) (o c : Token) :
    P.TakesName t o c ↔ P.dialect.isKeyword o.nameText .ifWord = false ∧
      P.dialect.isKeyword o.nameText .subWord = false ∧
      ∀ y ∈ P.tokenize t, o.stop ≤ y.start → P.WaitsAt t y c →
        P.dialect.isKeyword o.nameText .thenWord = false ∧ P.dialect.isKeyword c.nameText .thenWord = false :=
  ⟨fun h => ⟨h.notIf, h.notSub, h.notThen⟩, fun h => ⟨h.1, h.2.1, h.2.2⟩⟩

instance (P : Profile) (t : Text) (o c : Token) : Decidable (P.TakesName t o c) :=
  decidable_of_iff' _ (P.takesName_iff t o c)

/-- An `if` on the line of `x` with no `then` behind it up to `x` waits there. -/
theorem waitsAt_of_before (hm : '\n' ∉ P.dialect.marker)
    (h : P.dialect.Renaming a.size x v u w r z x' before before' behind) (ha : a.EndsLine)
    (hline : Text.IsLine (u ++ (w ++ z)) rest) {pre post : List Token} (hsplit : before = pre ++ y :: post)
    (hif : y.isIf) (hnone : ∀ s ∈ post, P.dialect.saysThen s = false) :
    y ∈ P.tokenize (a ++ (u ++ (w ++ z) ++ rest)) ∧ P.WaitsAt (a ++ (u ++ (w ++ z) ++ rest)) y x := by
  obtain ⟨hpre, hself⟩ := h.laid
  have hstop : x.stop ≤ a.size + Text.size (u ++ (w ++ z)) := (h.onLine ha hline).stop
  have hy : a.size ≤ y.start ∧ y.start < y.stop ∧ y.stop ≤ x.start := hpre.bounds (by simp [hsplit])
  have hne : u ++ (w ++ z) ≠ [] := by
    intro hnil
    rw [hnil, Text.size_nil] at hstop
    omega
  -- all tokens, parted at `y` and at `x`
  have hall : P.dialect.tokenize (a ++ (u ++ (w ++ z) ++ rest)) =
      (P.dialect.tokenize a ++ pre) ++ y :: (post ++ x :: (behind.map (.shift x.stop) ++
        P.dialect.tokenizeFrom (a.size + Text.size (u ++ (w ++ z))) rest)) := by
    rw [Dialect.tokenize_line hm ha hline hne, h.tokens, hsplit]
    simp
  have hstart : ∀ q, a.size ≤ q → q < x.stop →
      Text.lineStart (a ++ (u ++ (w ++ z) ++ rest)) q = a.size := by
    intro q h1 h2
    have hin : q < a.size + Text.size (u ++ (w ++ z)) := by omega
    have hsize : q < Text.size (a ++ (u ++ (w ++ z) ++ rest)) := by
      rw [Text.size_append, Text.size_append]
      omega
    rw [Text.lineStart, Text.lineAt_append ha h1 (by rwa [hline.firstLine]) hsize]
  refine ⟨?_, hif, hy.2.2, ?_, fun s hs h1 h2 => ?_⟩
  · rw [tokenize, hall]
    simp
  · rw [hstart y.start hy.1 (by omega), hstart x.start hpre.le hself]
  · have hall' : P.dialect.tokenize (a ++ (u ++ (w ++ z) ++ rest)) =
        (P.dialect.tokenize a ++ pre ++ y :: post) ++ x :: (behind.map (.shift x.stop) ++
          P.dialect.tokenizeFrom (a.size + Text.size (u ++ (w ++ z))) rest) := by
      rw [hall, List.append_assoc (P.dialect.tokenize a ++ pre), List.cons_append]
    obtain ⟨hfirst, -, -⟩ := P.dialect.tokenize_apart hall
    obtain ⟨-, -, hlast⟩ := P.dialect.tokenize_apart hall'
    rw [tokenize, hall] at hs
    rcases List.mem_append.1 hs with hs | hs
    · have := hfirst s hs
      omega
    · simp only [List.mem_cons, List.mem_append (s := post)] at hs
      rcases hs with rfl | hs | rfl | hs
      · omega
      · exact hnone s hs
      · omega
      · have := hlast s hs
        omega

/-- Naming a closer: an `if` between the two that changed its kind would wait for its `then`. -/
theorem before_closer (hd : P.dialect.marker = ['#'])
    (h : P.dialect.Renaming a.size x o.nameText u w r z x' before before' behind) (ha : a.EndsLine)
    (hline : Text.IsLine (u ++ (w ++ z)) rest)
    (ho : o ∈ P.dialect.tokenize (a ++ (u ++ (w ++ z) ++ rest))) (hok : o.kind = .beginBlock)
    (hxk : x.kind = .endThing) (htakes : P.TakesName (a ++ (u ++ (w ++ z) ++ rest)) o x) :
    List.Forall₂ (P.Renamed h.splice o x o.nameText) before before' := by
  have hm : '\n' ∉ P.dialect.marker := by simp [hd]
  by_cases hthen : P.dialect.isKeyword o.nameText .thenWord = false ∧
      P.dialect.isKeyword x.nameText .thenWord = false
  · obtain rfl := h.same hxk hthen.2 hthen.1
    exact List.forall₂_same.2 fun y hy => .of_mem_before h hy y.kind fun _ => rfl
  · refine h.reread.forall₂ (fun y hy => .of_mem_before h hy y.kind fun _ => rfl) ?_
    intro pre y post k hsplit hif hnone
    refine .of_mem_before h (by simp [hsplit]) k fun hfloor => absurd ?_ hthen
    obtain ⟨hmem, hwaits⟩ := waitsAt_of_before hm h ha hline hsplit hif hnone
    refine htakes.notThen y hmem ?_ hwaits
    rcases P.dialect.tokenize_disjoint ho hmem with rfl | hle | hle
    · simp [Token.isIf, hok] at hif
    · exact hle
    · omega

end Profile

/-! ## The edit -/

namespace Edit

/-- The offset once the edit is made. -/
def move (e : Edit) (q : Nat) : Nat := if q < e.stop then q else q - e.stop + (e.start + e.replacement.size)

/-- A token and what the edit has made of it: a token of the same kind where the edit moves it. -/
structure Keeps (e : Edit) (x x' : Token) : Prop where
  kind : x'.kind = x.kind
  start : x'.start = e.move x.start
  stop : x'.stop = e.move x.stop

theorem performOn_middle (a w r z : Text) :
    performOn ⟨a.size, a.size + w.size, r⟩ (a ++ (w ++ z)) = some (a ++ r ++ z) := by
  simp [performOn, Text.splitAt?_size_append]

end Edit

namespace Dialect

variable {d : Dialect} {a rest : Text} {x x' : Token} {v u w r z t : Text}
  {before before' behind : List Token}

theorem sameLetters_self (w : Text) : sameLetters w w := by
  induction w with
  | nil => rfl
  | cons c cs ih => simp [sameLetters, ih]

theorem spells_self (d : Dialect) (w : Text) : d.spells w w := by
  rw [spells]
  split
  · exact sameLetters_self w
  · simp

/-- Names are words. -/
theorem name_isWord (hd : d.marker = ['#']) (hx : x ∈ d.tokenize t) (hname : x.name ≠ none) :
    x.nameText.IsWord := by
  obtain ⟨q, -, ⟨-, hnone, -⟩ | ⟨p, q', hq', hk', -, -, hsome, -⟩⟩ := exists_pieceAt_of_mem hx
  · exact absurd hnone hname
  · rw [Token.nameText, hsome]
    obtain ⟨_, _, -, -, hfits⟩ := hq'.fits (by simp [hd])
    rw [Fits, hk'] at hfits
    exact ⟨hq'.text_ne_nil, hfits⟩

theorem Renaming.move_eq (h : d.Renaming a.size x v u w r z x' before before' behind) (q : Nat) :
    h.splice.move q = (x.naming v).move q := by
  rw [h.edit, Edit.move, ← h.stop, ← h.stop']
  rfl

/-- **The line of a token that gets a name**, and the text with the edit made. -/
theorem exists_edited (hd : d.marker = ['#']) (hx : x ∈ d.tokenize t)
    (hk : x.kind = .beginBlock ∨ x.kind = .endThing) (hv : v.IsWord) :
    ∃ a rest u w r z x' before before' behind, t = a ++ (u ++ (w ++ z) ++ rest) ∧ a.EndsLine ∧
      Text.IsLine (u ++ (w ++ z)) rest ∧ d.Renaming a.size x v u w r z x' before before' behind ∧
      (x.naming v).performOn t = some (a ++ (u ++ (r ++ z) ++ rest)) := by
  have hm : '\n' ∉ d.marker := by simp [hd]
  obtain ⟨a, below, rfl, ha, hx⟩ := mem_tokenize.1 hx
  have hne : below ≠ [] := by
    rintro rfl
    rw [pieces] at hx
    cases hx
  obtain ⟨line, rest, rfl, -, hline, -⟩ := Text.exists_isLine hne
  rw [pieces_line hm hline] at hx
  obtain ⟨u, w, r, z, x', before, before', behind, rfl, h⟩ := exists_renaming hd hx hk hv
  refine ⟨a, rest, u, w, r, z, x', before, before', behind, rfl, ha, hline, h, ?_⟩
  have hmiddle := Edit.performOn_middle (a ++ u) w r (z ++ rest)
  rw [Text.size_append] at hmiddle
  rw [h.edit]
  simpa using hmiddle

end Dialect

namespace Profile

variable {P : Profile} {b : Buffer} {p : Nat} {e : Edit} {o c : Token}

/-- Where names agree there is nothing to edit. -/
theorem renameEdit_eq_none (hfound : P.findMatch b p = some ⟨o, c⟩) (hnames : P.namesDiffer o c = false) :
    P.renameEdit b p = none := by
  simp [renameEdit, hfound, hnames]

/-- A match from a `begin` or a named `end` is one of the two. -/
theorem classify_of_found (hk : (P.classify b p).kind = .beginBlock ∨ (P.classify b p).kind = .endThing)
    (hfound : P.findMatch b p = some ⟨o, c⟩) :
    (P.classify b p).kind = .beginBlock ∧ P.classify b p = o ∨
      (P.classify b p).kind = .endThing ∧ P.classify b p = c := by
  rcases hk with hk | hk
  · have hrole : (P.classify b p).kind.role = .opener := by rw [hk, TokenKind.role_eq]
    exact .inl ⟨hk, (findMatch_opener_found hrole (by simp [hk]) hfound).1⟩
  · have hrole : (P.classify b p).kind.role = .closer := by rw [hk, TokenKind.role_eq]
    exact .inr ⟨hk, (findMatch_closer_found hrole hfound).1⟩

/-- **What an edit is for**: the pair found, one of which gets the name of the other. -/
theorem renameEdit_found (he : P.renameEdit b p = some e) :
    ∃ o c, P.findMatch b p = some ⟨o, c⟩ ∧ o.kind = .beginBlock ∧ c.kind = .endThing ∧
      (P.classify b p = o ∧ o.name ≠ none ∧ e = c.naming o.nameText ∨
        P.classify b p = c ∧ c.name ≠ none ∧ e = o.naming c.nameText) := by
  unfold renameEdit at he
  simp only [Option.bind_eq_bind, Option.bind_eq_some_iff, Option.guard_eq_some'] at he
  obtain ⟨_, hk, ⟨o, c⟩, hfound, _, ⟨hok, hdiffer⟩, hedit⟩ := he
  have hck : c.kind = .endThing := by
    simp only [namesDiffer, Bool.and_eq_true, decide_eq_true_eq] at hdiffer
    exact hdiffer.1.2
  obtain ⟨n, hn, hedit⟩ := hedit
  have hnaming : e = (if o = P.classify b p then (o, c) else (c, o)).2.naming n.text := by
    rw [Token.naming]
    split at hedit
    · next old hold =>
      cases hedit
      rw [hold]
    · next hold =>
      cases hedit
      rw [hold]
  rcases classify_of_found hk hfound with ⟨-, hclass⟩ | ⟨hk, hclass⟩
  · rw [if_pos hclass.symm] at hn hnaming
    dsimp only at hn
    refine ⟨o, c, hfound, hok, hck, .inl ⟨hclass, by simp [hn], ?_⟩⟩
    simpa [Token.nameText, hn] using hnaming
  · have hne : o ≠ P.classify b p := by
      intro heq
      rw [heq, hk] at hok
      cases hok
    rw [if_neg hne] at hn hnaming
    dsimp only at hn
    refine ⟨o, c, hfound, hok, hck, .inr ⟨hclass, by simp [hn], ?_⟩⟩
    simpa [Token.nameText, hn] using hnaming

theorem name_eq_nameText (hname : o.name ≠ none) : o.name.map Name.text = some o.nameText := by
  cases hn : o.name with
  | none => exact absurd hn hname
  | some n => simp [Token.nameText, hn]

/-- Two that are named alike do not differ. -/
theorem namesDiffer_eq_false {v : Text} (ho : o.name.map Name.text = some v)
    (hc : c.name.map Name.text = some v) : P.namesDiffer o c = false := by
  obtain ⟨n, hn, rfl⟩ := Option.map_eq_some_iff.1 ho
  obtain ⟨m, hm, heq⟩ := Option.map_eq_some_iff.1 hc
  rw [namesDiffer, hn, hm]
  simp [heq, P.dialect.spells_self]

/-- The pair `o`, `c` that is found at `p` and what an edit has made of it: it is found again from where
    the token at `p` has been moved, the names agree, and there is nothing more to edit. -/
structure Repaired (P : Profile) (b : Buffer) (p : Nat) (e : Edit) (o c : Token) (after : Text)
    (o' c' : Token) : Prop where
  opener : e.Keeps o o'
  closer : e.Keeps c c'
  classify : P.classify (.ofText after) (e.move (P.classify b p).start) = if P.classify b p = o then o' else c'
  findMatch : P.findMatch (.ofText after) (e.move (P.classify b p).start) = some ⟨o', c'⟩
  names : P.namesDiffer o' c' = false
  done : P.renameEdit (.ofText after) (e.move (P.classify b p).start) = none

/-- A pair that is found again, one of which has got the name of the other. -/
theorem repaired_of_twin {a u w r z v after : Text} {x x' o' c' : Token} {before before' behind : List Token}
    (h : P.dialect.Renaming a.size x v u w r z x' before before' behind) (hlt : o.start < o.stop)
    (hbefore : o.start < c.stop) (hne : o ≠ c)
    (hnames : (if o = x then some v else o.name.map Name.text) = some v ∧
      (if c = x then some v else c.name.map Name.text) = some v)
    (ho : P.Renamed h.splice o x v o o') (hc : P.Renamed h.splice o x v c c')
    (hclass : P.classify b p = o ∧ P.classify (.ofText after) (h.splice.move o.start) = o' ∧
        P.findMatch (.ofText after) (h.splice.move o.start) = some ⟨o', c'⟩ ∨
      P.classify b p = c ∧ P.classify (.ofText after) (h.splice.move c.start) = c' ∧
        P.findMatch (.ofText after) (h.splice.move c.start) = some ⟨o', c'⟩) :
    P.Repaired b p (x.naming v) o c after o' c' := by
  have hdiffer : P.namesDiffer o' c' = false :=
    namesDiffer_eq_false ((ho.name hlt).trans hnames.1) ((hc.name hbefore).trans hnames.2)
  have hfound : P.findMatch (.ofText after) ((x.naming v).move (P.classify b p).start) = some ⟨o', c'⟩ := by
    rw [← h.move_eq]
    rcases hclass with ⟨hclass, -, hfound⟩ | ⟨hclass, -, hfound⟩
    · rw [hclass, hfound]
    · rw [hclass, hfound]
  exact {
    opener := ⟨(ho.alike hlt).kind, by rw [← h.move_eq, ho.start], by rw [← h.move_eq, ho.stop]⟩
    closer := ⟨(hc.alike hbefore).kind, by rw [← h.move_eq, hc.start], by rw [← h.move_eq, hc.stop]⟩
    classify := by
      rw [← h.move_eq]
      rcases hclass with ⟨hclass, hmet, -⟩ | ⟨hclass, hmet, -⟩
      · rw [hclass, if_pos rfl, hmet]
      · rw [hclass, if_neg hne.symm, hmet]
    findMatch := hfound
    names := hdiffer
    done := renameEdit_eq_none hfound hdiffer }

/-- **From the `begin`**: its `end` takes its name. -/
theorem repair_forward (hd : P.dialect.marker = ['#']) (hfound : P.findMatch b p = some ⟨o, c⟩)
    (hok : o.kind = .beginBlock) (hck : c.kind = .endThing) (hclass : P.classify b p = o)
    (hname : o.name ≠ none) :
    ∃ after, (c.naming o.nameText).performOn b.text = some after ∧
      (P.TakesName b.text o c → ∃ o' c', P.Repaired b p (c.naming o.nameText) o c after o' c') := by
  obtain ⟨t, _, rfl⟩ := b
  have hrole : (P.classify (.ofText t) p).kind.role = .opener := by
    rw [show P.classify (.ofText t) p = o from hclass, hok, TokenKind.role_eq]
  have hif : (P.classify (.ofText t) p).kind ≠ .ifBlock := by
    rw [show P.classify (.ofText t) p = o from hclass, hok]
    simp
  have ho : o ∈ P.dialect.tokenize t := by
    rw [← hclass]
    exact classify_mem (b := .ofText t) (by rw [hrole]; simp)
  obtain ⟨-, hc, hapart, haccepts⟩ := findMatch_opener_found (b := .ofText t) hrole hif hfound
  obtain ⟨-, hlt, -⟩ := (P.dialect.tokenize_laid t).bounds ho
  obtain ⟨-, hlt', -⟩ := (P.dialect.tokenize_laid t).bounds hc
  obtain ⟨a, rest, u, w, r, z, x', before, before', behind, rfl, ha, hline, h, hafter⟩ :=
    Dialect.exists_edited hd hc (.inr hck) (Dialect.name_isWord hd ho hname)
  refine ⟨_, hafter, fun htakes => ?_⟩
  have hfamily : P.endFamily o.nameText = P.endFamily c.nameText := by
    have hbegin : P.endFamily o.nameText = .beginBlock :=
      (endFamily_eq_beginBlock _).2 (by simp [htakes.notIf, htakes.notSub])
    simp only [accepts, hok, hck, Bool.and_eq_true, Bool.or_eq_true, decide_eq_true_eq, ne_eq,
      not_true_eq_false, false_or] at haccepts
    rw [hbegin, haccepts.2]
  have hcarries := carries_renamed hd h ha hline ho (fun _ => hfamily)
    (before_closer hd h ha hline ho hok hck htakes)
  obtain ⟨o', c', hRo, hRc, hmet, hfound'⟩ := findMatch_opener_twin hcarries hrole hif hfound
  have hne : o ≠ c := by
    rintro rfl
    omega
  exact ⟨o', c', repaired_of_twin h hlt (by omega) hne
    ⟨by rw [if_neg hne, name_eq_nameText hname], if_pos rfl⟩ hRo hRc (.inl ⟨hclass, hmet, hfound'⟩)⟩

/-- **From the `end`**: its `begin` takes its name. -/
theorem repair_back (hd : P.dialect.marker = ['#']) (hfound : P.findMatch b p = some ⟨o, c⟩)
    (hok : o.kind = .beginBlock) (hck : c.kind = .endThing) (hclass : P.classify b p = c)
    (hname : c.name ≠ none) :
    ∃ after, (o.naming c.nameText).performOn b.text = some after ∧
      ∃ o' c', P.Repaired b p (o.naming c.nameText) o c after o' c' := by
  obtain ⟨t, _, rfl⟩ := b
  have hrole : (P.classify (.ofText t) p).kind.role = .closer := by
    rw [show P.classify (.ofText t) p = c from hclass, hck, TokenKind.role_eq]
  have hc : c ∈ P.dialect.tokenize t := by
    rw [← hclass]
    exact classify_mem (b := .ofText t) (by rw [hrole]; simp)
  obtain ⟨-, ho, hstart⟩ := findMatch_closer_found (b := .ofText t) hrole hfound
  obtain ⟨-, hlt, -⟩ := (P.dialect.tokenize_laid t).bounds ho
  obtain ⟨-, hlt', -⟩ := (P.dialect.tokenize_laid t).bounds hc
  obtain ⟨a, rest, u, w, r, z, x', before, before', behind, rfl, ha, hline, h, hafter⟩ :=
    Dialect.exists_edited hd ho (.inl hok) (Dialect.name_isWord hd hc hname)
  refine ⟨_, hafter, ?_⟩
  have hcarries := carries_renamed hd h ha hline ho (fun hk => by rw [hok] at hk; cases hk) (before_opener h)
  obtain ⟨o', c', hRo, hRc, hmet, hfound'⟩ :=
    findMatch_closer_twin hcarries hrole (by simp [hok]) hfound
  have hne : o ≠ c := by
    rintro rfl
    omega
  exact ⟨o', c', repaired_of_twin h hlt (by omega) hne
    ⟨if_pos rfl, by rw [if_neg hne.symm, name_eq_nameText hname]⟩ hRo hRc (.inr ⟨hclass, hmet, hfound'⟩)⟩

/-- **An edit that gives the partner of a `begin` or `end` its name repairs the pair**, with any budget:
    always from the `end`, and from the `begin` if its `end` can take its name.  The edit can be made, and
    in the text with it made the pair is found again, the names agree, and there is nothing more to edit. -/
theorem renameEdit_repairs (P : Profile) (hd : P.dialect.marker = ['#']) (b : Buffer) (p : Nat) (e : Edit)
    (he : P.renameEdit b p = some e) :
    ∃ o c after, P.findMatch b p = some ⟨o, c⟩ ∧ e.performOn b.text = some after ∧
      ((P.classify b p = o → P.TakesName b.text o c) → ∃ o' c', P.Repaired b p e o c after o' c') := by
  obtain ⟨o, c, hfound, hok, hck, ⟨hclass, hname, rfl⟩ | ⟨hclass, hname, rfl⟩⟩ := renameEdit_found he
  · obtain ⟨after, hafter, hrepair⟩ := repair_forward hd hfound hok hck hclass hname
    exact ⟨o, c, after, hfound, hafter, fun htakes => hrepair (htakes hclass)⟩
  · obtain ⟨after, hafter, hrepair⟩ := repair_back hd hfound hok hck hclass hname
    exact ⟨o, c, after, hfound, hafter, fun _ => hrepair⟩

/-- A `begin then`, asked inside its keyword, with just as many visits as it takes to find its `end`.  The
    `if` before the `end` has its own `then`, so the `end` can take the name. -/
theorem renameEdit_repairs_own_then :
    let P : Profile := { layout := { maxVisits := 8 } }
    let b : Buffer := .ofText "begin then; é\nif a then end x; if b\n".toList
    let e : Edit := ⟨29, 30, "then".toList⟩
    let o : Token := ⟨.beginBlock, 0, 10, some ⟨6, "then".toList⟩⟩
    let c : Token := ⟨.endThing, 25, 30, some ⟨29, "x".toList⟩⟩
    P.renameEdit b 2 = some e ∧ P.TakesName b.text o c ∧
      ∃ o' c', P.Repaired b 2 e o c "begin then; é\nif a then end then; if b\n".toList o' c' := by
  intro P b e o c
  have hrun : P.renameEdit b 2 = some e ∧ P.findMatch b 2 = some ⟨o, c⟩ ∧
      e.performOn b.text = some "begin then; é\nif a then end then; if b\n".toList := by decide +kernel
  have htakes : P.TakesName b.text o c := by decide +kernel
  obtain ⟨he, hpair, hedited⟩ := hrun
  obtain ⟨o', c', after, hfound, hafter, hrepair⟩ := renameEdit_repairs P rfl b 2 e he
  rw [hpair] at hfound
  rw [hedited] at hafter
  cases hfound
  cases hafter
  exact ⟨he, htakes, hrepair fun _ => htakes⟩

/-- An edit that is to repair the pair at `p`, and after which there is another one to make. -/
def AsksAgain (P : Profile) (t : Text) (p : Nat) (e : Edit) (after : Text) (e' : Edit) : Prop :=
  P.renameEdit (.ofText t) p = some e ∧ e.performOn t = some after ∧ P.renameEdit (.ofText after) p = some e'

instance (P : Profile) (t : Text) (p : Nat) (e : Edit) (after : Text) (e' : Edit) :
    Decidable (P.AsksAgain t p e after e') :=
  inferInstanceAs (Decidable (_ ∧ _ ∧ _))

/-- Three `end`s that cannot take the name.  Named `if` the first closes no `begin` any more.  Named `then`
    the second makes the `if` before it a block; the bare `end` then closes the `if` and not the `sub`, and
    the inner `begin` takes the named `end`.  The third was the `then` of the `if` before it, and the other
    way round the bare `end` now closes the `sub`, and `end z` the outer `begin`. -/
theorem renameEdit_misses :
    let P : Profile := { layout := { maxVisits := 0 } }
    P.AsksAgain "begin if\nend x\nend y\n".toList 0 ⟨13, 14, "if".toList⟩
      "begin if\nend if\nend y\n".toList ⟨20, 21, "if".toList⟩ ∧
    P.AsksAgain "begin then\nsub\nbegin q\nif a; end; end x\nend y\n".toList 0 ⟨38, 39, "then".toList⟩
      "begin then\nsub\nbegin q\nif a; end; end then\nend y\n".toList ⟨47, 48, "then".toList⟩ ∧
    P.AsksAgain "begin x\nsub\nbegin q\nif a; end; end z; end then\n".toList 0 ⟨42, 46, "x".toList⟩
      "begin x\nsub\nbegin q\nif a; end; end z; end x\n".toList ⟨35, 36, "x".toList⟩ := by
  decide +kernel

end Profile

end BlockScript
