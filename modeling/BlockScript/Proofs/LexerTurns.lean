/-
  When the lexer of a line comes to an end.

  A turn of it does one of five things (`turn_acts`): past the text and inside a character it ends the
  line, at a line break it ends the line behind it, at a line break that opens a comment it stands still,
  and anywhere else it moves on over characters that are no line breaks.  So the offset grows until the
  first line break, and what that break is decides: the loop ends there (`lexFrom_append`), or it stands
  there for good, and a loop that only goes on has no value (`loop_eq_none`).

  The main result is `lexer_ends_iff`: a line and a text are lexed to their end exactly when no line break
  met opens a comment, which is so for every marker that does not start with a line break, and what comes
  out is `lexLine` and `tokenize`.
-/
import BlockScript.Lexer
import BlockScript.Proofs.LineLexing
import BlockScript.Proofs.PaintedLiterals

namespace BlockScript

namespace Dialect

variable {d : Dialect} {t : Text} {pos : Nat}

/-! ## One turn -/

/-- Whether a line break stands at offset `pos` that opens a comment. -/
def StandsStill (d : Dialect) (t : Text) (pos : Nat) : Prop :=
  ∃ before rest : Text, t = before ++ '\n' :: rest ∧ before.size = pos ∧
    d.opensComment before.getLast? ('\n' :: rest)

/-- What a turn at an offset can come to. -/
inductive Acts (d : Dialect) (t : Text) (pos : Nat) : Turn → Prop where
  /-- nothing is left of the text -/
  | past (h : t.size ≤ pos) : Acts d t pos (.ends t.size none)
  /-- the offset lies inside a character -/
  | inside (h : pos < t.size) (hs : t.splitAt? pos = none) :
    Acts d t pos (.ends (pos + 1) (some ⟨.newline, pos, ['\n']⟩))
  /-- a line break ends the line -/
  | ended (before rest : Text) (ht : t = before ++ '\n' :: rest) (hs : before.size = pos)
    (h : ¬d.opensComment before.getLast? ('\n' :: rest)) :
    Acts d t pos (.ends (pos + 1) (some ⟨.newline, pos, ['\n']⟩))
  /-- a line break opens a comment, which takes nothing -/
  | still (h : d.StandsStill t pos) : Acts d t pos (.onward pos none)
  /-- characters other than line breaks are taken -/
  | moved (before w rest : Text) (found : Option Lexeme) (ht : t = before ++ (w ++ rest))
    (hs : before.size = pos) (hne : w ≠ []) (hw : ∀ c ∈ w, c ≠ '\n') :
    Acts d t pos (.onward (pos + w.size) found)

theorem turn_append (d : Dialect) (before : Text) (c : Char) (cs : Text) :
    d.turn (before ++ c :: cs) before.size =
      let kind := (d.cut before.getLast? c cs).1
      let front : Text := (c :: cs).take (d.cut before.getLast? c cs).2
      let found := kind.lexeme?.map (⟨·, before.size, front⟩)
      if kind = .newline then .ends (before.size + front.size) found
      else .onward (before.size + front.size) found := by
  rw [turn, Text.splitAt?_size_append]

theorem cut_newline (d : Dialect) (before : Option Char) (cs : Text) :
    d.cut before '\n' cs = if d.opensComment before ('\n' :: cs) then (.comment, 0) else (.newline, 1) := by
  by_cases h : d.opensComment before ('\n' :: cs)
  · rw [cut, classHere, if_pos h, if_pos h]
    rfl
  · rw [cut, classHere, if_neg h, if_neg h, CharClass.of_newline]

/-- Nothing but a line break ends a line, and nothing but one that opens a comment takes no character. -/
theorem cut_other (d : Dialect) (before : Option Char) {c : Char} (hc : c ≠ '\n') (cs : Text) :
    (d.cut before c cs).1 ≠ .newline ∧ (d.cut before c cs).2 ≠ 0 :=
  not_or.1 fun h => hc (d.cut_stops before c cs h)

/-- **Every turn is one of the five.** -/
theorem turn_acts (d : Dialect) (t : Text) (pos : Nat) : d.Acts t pos (d.turn t pos) := by
  cases hs : t.splitAt? pos with
  | none =>
    rw [turn, hs]
    by_cases hpos : pos < t.size
    · simp only [if_pos hpos]
      exact .inside hpos hs
    · simp only [if_neg hpos]
      exact .past (Nat.le_of_not_lt hpos)
  | some cut =>
    obtain ⟨before, rest⟩ := cut
    obtain ⟨rfl, rfl⟩ := Text.splitAt?_append hs
    cases rest with
    | nil =>
      rw [turn, hs]
      exact .past (by rw [List.append_nil])
    | cons c cs =>
      rw [turn_append]
      by_cases hc : c = '\n'
      · subst hc
        rw [cut_newline]
        by_cases hopens : d.opensComment before.getLast? ('\n' :: cs)
        · rw [if_pos hopens]
          exact .still ⟨before, cs, rfl, rfl, hopens⟩
        · rw [if_neg hopens]
          exact .ended before cs rfl rfl hopens
      · obtain ⟨hk, hn⟩ := d.cut_other before.getLast? hc cs
        dsimp only
        rw [if_neg hk]
        refine .moved before _ ((c :: cs).drop (d.cut before.getLast? c cs).2) _ ?_ rfl ?_ ?_
        · rw [List.take_append_drop]
        · simpa using hn
        · exact d.cut_noBreak before.getLast? c cs hk

/-! ## Stalls -/

/-- Whether the line at offset `start` runs up to a line break that opens a comment. -/
def Stalls (d : Dialect) (t : Text) (start : Nat) : Prop :=
  ∃ before w rest : Text, t = before ++ (w ++ '\n' :: rest) ∧ before.size = start ∧
    (∀ c ∈ w, c ≠ '\n') ∧ d.opensComment (before ++ w).getLast? ('\n' :: rest)

theorem Stalls.standsStill {start : Nat} (h : d.Stalls t start) : ∃ p, d.StandsStill t p := by
  obtain ⟨before, w, rest, rfl, -, -, hopens⟩ := h
  exact ⟨_, before ++ w, rest, by rw [List.append_assoc], rfl, hopens⟩

theorem StandsStill.stalls (h : d.StandsStill t pos) : d.Stalls t pos := by
  obtain ⟨before, rest, rfl, rfl, hopens⟩ := h
  exact ⟨before, [], rest, rfl, rfl, by simp, by rwa [List.append_nil]⟩

/-- Characters other than line breaks do not matter for whether a line stalls. -/
theorem stalls_front {before w rest : Text} (hw : ∀ c ∈ w, c ≠ '\n') :
    d.Stalls (before ++ (w ++ rest)) before.size ↔ d.Stalls (before ++ (w ++ rest)) (before.size + w.size) := by
  constructor
  · rintro ⟨before', w', rest', heq, hs, hw', hopens⟩
    obtain ⟨rfl, hline⟩ := Text.append_inj_of_size heq hs.symm
    -- the first line break stands behind `w`
    obtain ⟨x, rfl, rfl⟩ : ∃ x, w' = w ++ x ∧ rest = x ++ '\n' :: rest' := by
      rcases List.append_eq_append_iff.1 hline with ⟨x, hx, hrest⟩ | ⟨x, hx, hrest⟩
      · exact ⟨x, hx, hrest⟩
      · cases x with
        | nil => exact ⟨[], by simpa using hx.symm, by simpa using hrest.symm⟩
        | cons c x =>
          have hc : '\n' = c := (List.cons.inj hrest).1
          exact absurd hc.symm (hw c (by rw [hx]; simp))
    refine ⟨before ++ w, x, rest', by simp, by rw [Text.size_append], fun c hc => ?_, ?_⟩
    · exact hw' c (List.mem_append_right _ hc)
    · rwa [List.append_assoc]
  · rintro ⟨before', w', rest', heq, hs, hw', hopens⟩
    rw [← List.append_assoc, ← Text.size_append] at *
    obtain ⟨rfl, rfl⟩ := Text.append_inj_of_size heq hs.symm
    refine ⟨before, w ++ w', rest', by simp, rfl, fun c hc => ?_, ?_⟩
    · rcases List.mem_append.1 hc with hc | hc
      · exact hw c hc
      · exact hw' c hc
    · rwa [← List.append_assoc]

/-- A line that stalls is never over: the turn goes on, and what it goes on with stalls again. -/
theorem Stalls.turn (h : d.Stalls t pos) :
    ∃ pos' found, d.turn t pos = .onward pos' found ∧ d.Stalls t pos' := by
  obtain ⟨before, w, rest, rfl, rfl, hw, hopens⟩ := id h
  generalize hturn : d.turn _ _ = turn
  cases hturn ▸ d.turn_acts (before ++ (w ++ '\n' :: rest)) before.size with
  | past hpast =>
    simp only [Text.size_append, Text.size_cons] at hpast
    have hbreak : ('\n' : Char).utf8Size = 1 := rfl
    omega
  | inside hpos hs =>
    rw [Text.splitAt?_size_append] at hs
    cases hs
  | ended before' rest' heq hs hno =>
    obtain ⟨rfl, hline⟩ := Text.append_inj_of_size heq hs.symm
    cases w with
    | nil =>
      rw [List.append_nil] at hopens
      rw [← hline] at hno
      exact absurd hopens hno
    | cons c w => exact absurd (List.cons.inj hline).1 (hw c (List.mem_cons_self ..))
  | still hstill => exact ⟨_, _, rfl, h⟩
  | moved before' w' rest' found heq hs hne hw' =>
    refine ⟨_, _, rfl, ?_⟩
    rw [heq] at h ⊢
    rw [← hs] at h ⊢
    exact (stalls_front hw').1 h

/-- Where a line does not stall, a turn that goes on moves forward, and the line does not stall there. -/
theorem moves_of_not_stalls {pos' : Nat} {found : Option Lexeme} (h : ¬d.Stalls t pos)
    (hturn : d.turn t pos = .onward pos' found) :
    pos < pos' ∧ pos' ≤ t.size ∧ ¬d.Stalls t pos' := by
  cases hturn ▸ d.turn_acts t pos with
  | still hstill => exact absurd hstill.stalls h
  | moved before w rest found ht hs hne hw =>
    subst ht hs
    have hpos := Text.size_pos hne
    refine ⟨by omega, ?_, fun hs => h ((stalls_front hw).2 hs)⟩
    simp only [Text.size_append]
    omega

/-! ## Turn after turn -/

/-- Where the lexer stands after a number of turns from offset `start`; `none` once the line is over. -/
def posAfter (d : Dialect) (t : Text) (start : Nat) : Nat → Option Nat
  | 0 => some start
  | n + 1 =>
    match d.posAfter t start n with
    | none => none
    | some pos =>
      match d.turn t pos with
      | .ends _ _ => none
      | .onward pos' _ => some pos'

/-- **A stall has no end.** -/
theorem Stalls.posAfter {start : Nat} (h : d.Stalls t start) (n : Nat) :
    ∃ pos, d.posAfter t start n = some pos ∧ d.Stalls t pos := by
  induction n with
  | zero => exact ⟨start, rfl, h⟩
  | succ n ih =>
    obtain ⟨pos, hpos, hstalls⟩ := ih
    obtain ⟨pos', found, hturn, hnext⟩ := hstalls.turn
    refine ⟨pos', ?_, hnext⟩
    simp only [Dialect.posAfter, hpos, hturn]

/-- Without a stall every turn takes the lexer a byte further at least. -/
theorem posAfter_ge {start : Nat} (h : ¬d.Stalls t start) {n pos : Nat} (hpos : d.posAfter t start n = some pos) :
    ¬d.Stalls t pos ∧ start + n ≤ pos ∧ (n = 0 ∨ pos ≤ t.size) := by
  induction n generalizing pos with
  | zero =>
    obtain rfl : start = pos := Option.some.inj hpos
    exact ⟨h, Nat.le_refl _, Or.inl rfl⟩
  | succ n ih =>
    simp only [posAfter] at hpos
    split at hpos
    · cases hpos
    · next prev hprev =>
      split at hpos
      · cases hpos
      · next pos' found hturn =>
        obtain rfl : pos' = pos := Option.some.inj hpos
        obtain ⟨hstalls, hle, -⟩ := ih hprev
        obtain ⟨hlt, hsize, hnext⟩ := moves_of_not_stalls hstalls hturn
        exact ⟨hnext, by omega, Or.inr hsize⟩

/-- **Without a stall the line is over in time**: it takes no more turns than bytes are left, and one. -/
theorem posAfter_eq_none {start : Nat} (h : ¬d.Stalls t start) :
    d.posAfter t start (t.size - start + 1) = none := by
  cases hpos : d.posAfter t start (t.size - start + 1) with
  | none => rfl
  | some pos =>
    obtain ⟨-, hge, hsize⟩ := posAfter_ge h hpos
    have hle : pos ≤ t.size := hsize.resolve_left (Nat.succ_ne_zero _)
    omega

/-! ## What the loops come to -/

theorem lexFrom_onward {start pos' : Nat} {found : Option Lexeme} (lexemes : List Lexeme)
    (h : d.turn t pos = .onward pos' found) :
    d.lexFrom t start lexemes pos = d.lexFrom t start (lexemes ++ found.toList) pos' :=
  loop_inl (by simp only [lexStep, h])

theorem lexFrom_ends {start stop : Nat} {found : Option Lexeme} (lexemes : List Lexeme)
    (h : d.turn t pos = .ends stop found) :
    d.lexFrom t start lexemes pos = some ⟨start, stop, lexemes ++ found.toList⟩ :=
  loop_inr (by simp only [lexStep, h])

/-- **A line that stalls has no value.** -/
theorem Stalls.lexFrom (h : d.Stalls t pos) (start : Nat) (lexemes : List Lexeme) :
    d.lexFrom t start lexemes pos = none := by
  apply loop_eq_none (P := fun s => d.Stalls t s.2) _ h
  intro s hs
  obtain ⟨pos', found, hturn, hnext⟩ := hs.turn
  exact ⟨(s.1 ++ found.toList, pos'), by simp only [lexStep, hturn], hnext⟩

/-- Without a stall the loop gives the pieces of the line in their places. -/
theorem lexFrom_append (before rest : Text) (h : ¬d.Stalls (before ++ rest) before.size) (start : Nat)
    (lexemes : List Lexeme) :
    d.lexFrom (before ++ rest) start lexemes before.size =
      some ⟨start, before.size + Piece.totalSize (d.pieces before.getLast? rest).1,
        lexemes ++ place before.size (d.pieces before.getLast? rest).1⟩ := by
  induction hlen : rest.length using Nat.strongRecOn generalizing before rest lexemes with
  | _ n ih =>
    cases rest with
    | nil =>
      have hturn : d.turn (before ++ []) before.size = .ends (before ++ []).size none := by
        rw [turn, Text.splitAt?_size_append]
      rw [lexFrom_ends lexemes hturn, pieces, List.append_nil]
      rfl
    | cons c cs =>
      have hturn := d.turn_append before c cs
      by_cases hc : c = '\n'
      · -- the line break ends the line
        subst hc
        have hopens : ¬d.opensComment before.getLast? ('\n' :: cs) :=
          fun hopens => h (StandsStill.stalls ⟨before, cs, rfl, rfl, hopens⟩)
        rw [cut_newline, if_neg hopens] at hturn
        rw [lexFrom_ends lexemes hturn, pieces_cons, cut_newline, if_neg hopens]
        rfl
      · obtain ⟨hk, hn⟩ := d.cut_other before.getLast? hc cs
        have hnoBreak := d.cut_noBreak before.getLast? c cs hk
        rw [if_neg hk] at hturn
        rw [lexFrom_onward lexemes hturn, pieces_cons, if_neg (not_or.2 ⟨hk, hn⟩)]
        -- the text behind the piece is lexed from its own start
        generalize (d.cut before.getLast? c cs).1 = kind
        generalize (d.cut before.getLast? c cs).2 = k at hn hnoBreak ⊢
        have hsplit : c :: cs = (c :: cs).take k ++ (c :: cs).drop k := (List.take_append_drop ..).symm
        have hne : (c :: cs).take k ≠ [] := by simpa using hn
        have hshort : ((c :: cs).drop k).length < n := by
          rw [List.length_drop]
          rw [List.length_cons] at hlen ⊢
          omega
        generalize (c :: cs).take k = front at *
        generalize (c :: cs).drop k = rest at *
        rw [hsplit] at h ⊢
        have hlast : (before ++ front).getLast? = front.getLast? := by
          rw [List.getLast?_append, List.getLast?_eq_some_getLast hne, Option.some_or]
        have hstalls : ¬d.Stalls ((before ++ front) ++ rest) (before ++ front).size := by
          rw [List.append_assoc, Text.size_append, ← stalls_front hnoBreak]
          exact h
        have hrest := ih _ hshort (before ++ front) rest hstalls
          (lexemes ++ (kind.lexeme?.map (⟨·, before.size, front⟩)).toList) rfl
        rw [hlast, List.append_assoc, Text.size_append] at hrest
        rw [hrest, place_cons, Piece.totalSize_cons, List.append_assoc, Nat.add_assoc]

/-- **A line that does not stall is lexed to its end.** -/
theorem lexLine?_eq {start : Nat} (h : ¬d.Stalls t start) : d.lexLine? t start = some (d.lexLine t start) := by
  cases hs : t.splitAt? start with
  | none =>
    have hturn : d.turn t start =
        if start < t.size then .ends (start + 1) (some ⟨.newline, start, ['\n']⟩) else .ends t.size none := by
      rw [turn, hs]
    rw [lexLine?, lexLine, hs]
    split at hturn
    · next hlt => rw [lexFrom_ends [] hturn, if_pos hlt]; rfl
    · next hlt => rw [lexFrom_ends [] hturn, if_neg hlt]; rfl
  | some cut =>
    obtain ⟨before, rest⟩ := cut
    obtain ⟨rfl, rfl⟩ := Text.splitAt?_append hs
    rw [lexLine?, lexFrom_append before rest h, lexLine, hs]
    rfl

theorem Stalls.lexLine? {start : Nat} (h : d.Stalls t start) : d.lexLine? t start = none := h.lexFrom start []

/-! ## Line after line -/

/-- Whether some line break in `rest`, which follows `before`, opens a comment. -/
def OpensAtBreak (d : Dialect) (before rest : Text) : Prop :=
  ∃ x y : Text, rest = x ++ '\n' :: y ∧ d.opensComment (before ++ x).getLast? ('\n' :: y)

theorem opensAtBreak_iff : d.OpensAtBreak [] t ↔ ∃ p, d.StandsStill t p := by
  constructor
  · rintro ⟨x, y, ht, hopens⟩
    exact ⟨x.size, x, y, ht, rfl, hopens⟩
  · rintro ⟨p, x, y, ht, -, hopens⟩
    exact ⟨x, y, ht, hopens⟩

theorem Stalls.opensAtBreak {before rest : Text} (h : d.Stalls (before ++ rest) before.size) :
    d.OpensAtBreak before rest := by
  obtain ⟨before', w, rest', heq, hs, -, hopens⟩ := h
  obtain ⟨rfl, rfl⟩ := Text.append_inj_of_size heq hs.symm
  exact ⟨w, rest', rfl, hopens⟩

/-- A line break that opens a comment ends the first line, or stands behind it. -/
theorem OpensAtBreak.line {before line later : Text} (hline : Text.IsLine line later)
    (h : d.OpensAtBreak before (line ++ later)) :
    d.Stalls (before ++ (line ++ later)) before.size ∨ d.OpensAtBreak (before ++ line) later := by
  obtain ⟨x, y, heq, hopens⟩ := h
  by_cases hx : '\n' ∈ x
  · obtain ⟨w, x', rfl, hw⟩ := List.eq_append_cons_of_mem hx
    have hnoBreak : ∀ c ∈ w, c ≠ '\n' := fun c hc h => hw (h ▸ hc)
    obtain rfl : line = w ++ ['\n'] := by
      rw [← hline.firstLine, heq, List.append_assoc, Text.firstLine_append hnoBreak]
      rfl
    refine Or.inr ⟨x', y, ?_, by simpa using hopens⟩
    simpa using heq
  · exact Or.inl ⟨before, x, y, by rw [heq], rfl, fun c hc h => hx (h ▸ hc), hopens⟩

theorem OpensAtBreak.behind {before line later : Text} (h : d.OpensAtBreak (before ++ line) later) :
    d.OpensAtBreak before (line ++ later) := by
  obtain ⟨x, y, rfl, hopens⟩ := h
  exact ⟨line ++ x, y, by rw [List.append_assoc], by rwa [← List.append_assoc]⟩

/-- The line at the start of a line: its lexemes are those that tokens are read from. -/
theorem lexLine_line {before line later : Text} (hends : before.EndsLine) (hline : Text.IsLine line later) :
    d.lexLine (before ++ (line ++ later)) before.size =
      ⟨before.size, (before ++ line).size, place before.size (d.pieces none (line ++ later)).1⟩ := by
  have hsize : Piece.totalSize (d.pieces none (line ++ later)).1 = line.size := by
    rw [Piece.totalSize, pieces_text, hline.firstLine]
  rw [lexLine, Text.splitAt?_size_append]
  simp only [pieces_congr_before (any_isScriptWord_of_endsLine hends), hsize, Text.size_append]

theorem tokenizeFrom_isLine {line later : Text} (hne : line ≠ []) (hline : Text.IsLine line later) (p : Nat) :
    d.tokenizeFrom p (line ++ later) =
      d.tokensOf (place p (d.pieces none (line ++ later)).1) ++ d.tokenizeFrom (p + line.size) later := by
  have htext := d.pieces_text none (line ++ later)
  have hall := d.pieces_append none (line ++ later)
  rw [hline.firstLine] at htext
  rw [htext, List.append_cancel_left_eq] at hall
  obtain ⟨c, cs, hcs⟩ : ∃ c cs, line ++ later = c :: cs := List.exists_cons_of_ne_nil (by simp [hne])
  rw [hcs] at htext hall ⊢
  rw [tokenizeFrom, Piece.totalSize, htext, hall]

theorem tokenizeLines?_past {start : Nat} (tokens : List Token) (h : ¬start < t.size) :
    d.tokenizeLines? t tokens start = some tokens :=
  loop_inr (if_neg h)

theorem tokenizeLines?_line {start : Nat} {line : LexedLine} (tokens : List Token) (h : start < t.size)
    (hline : d.lexLine? t start = some line) :
    d.tokenizeLines? t tokens start = d.tokenizeLines? t (tokens ++ d.tokensOf line.lexemes) line.stop :=
  loop_inl (by simp only [lineStep, if_pos h, hline, Option.map_some])

theorem tokenizeLines?_held {start : Nat} (tokens : List Token) (h : start < t.size)
    (hline : d.lexLine? t start = none) : d.tokenizeLines? t tokens start = none :=
  loop_none (by simp only [lineStep, if_pos h, hline, Option.map_none])

/-- **The tokens come, or do not**, line by line: the first line that stalls holds up all that follow. -/
theorem tokenizeLines?_append (d : Dialect) (before rest : Text) (hends : rest = [] ∨ before.EndsLine)
    (tokens : List Token) :
    (d.OpensAtBreak before rest → d.tokenizeLines? (before ++ rest) tokens before.size = none) ∧
      (¬d.OpensAtBreak before rest →
        d.tokenizeLines? (before ++ rest) tokens before.size =
          some (tokens ++ d.tokenizeFrom before.size rest)) := by
  induction rest using Text.line_induction generalizing before tokens with
  | nil =>
    have hnone : ¬d.OpensAtBreak before [] := by
      rintro ⟨x, y, heq, -⟩
      simp at heq
    refine ⟨fun h => absurd h hnone, fun _ => ?_⟩
    rw [List.append_nil, tokenizeLines?_past tokens (Nat.lt_irrefl _), tokenizeFrom_nil, List.append_nil]
  | line line later hne hline hlines ih =>
    have hbefore : before.EndsLine := hends.resolve_left (by simp [hne])
    have hlt : before.size < Text.size (before ++ (line ++ later)) := by
      have hpos := Text.size_pos hne
      simp only [Text.size_append]
      omega
    by_cases hstalls : d.Stalls (before ++ (line ++ later)) before.size
    · exact ⟨fun _ => tokenizeLines?_held tokens hlt hstalls.lexLine?, fun h => absurd hstalls.opensAtBreak h⟩
    · rw [tokenizeLines?_line tokens hlt (lexLine?_eq hstalls), lexLine_line hbefore hline]
      have hlater : later = [] ∨ (before ++ line).EndsLine := by
        by_cases hnil : later = []
        · exact Or.inl hnil
        · exact Or.inr (Or.inr (by rw [List.getLast?_append, hline.getLast? hnil, Option.some_or]))
      obtain ⟨hnone, hsome⟩ := ih (before ++ line) hlater
        (tokens ++ d.tokensOf (place before.size (d.pieces none (line ++ later)).1))
      rw [← List.append_assoc]
      constructor
      · intro h
        exact hnone ((h.line hline).resolve_left hstalls)
      · intro h
        refine (hsome fun hb => h hb.behind).trans ?_
        rw [tokenizeFrom_isLine hne hline, Text.size_append, List.append_assoc]

/-! ## When lexing ends -/

/-- Whether the turn at an offset ends the line, behind the offset if that lies in the text, or moves the
    offset forward. -/
def Progresses (d : Dialect) (t : Text) (pos : Nat) : Prop :=
  match d.turn t pos with
  | .ends stop _ => pos < t.size → pos < stop
  | .onward pos' _ => pos < pos'

theorem StandsStill.turn (h : d.StandsStill t pos) : d.turn t pos = .onward pos none := by
  obtain ⟨before, rest, rfl, rfl, hopens⟩ := h
  rw [turn_append, cut_newline, if_pos hopens]
  rfl

theorem progresses_iff (d : Dialect) (t : Text) (pos : Nat) : d.Progresses t pos ↔ ¬d.StandsStill t pos := by
  constructor
  · intro h hstill
    unfold Progresses at h
    rw [hstill.turn] at h
    exact Nat.lt_irrefl _ h
  · intro h
    unfold Progresses
    cases hturn : d.turn t pos with
    | ends stop found =>
      intro hpos
      show pos < stop
      cases hturn ▸ d.turn_acts t pos with
      | past hpast => omega
      | inside | ended => omega
    | onward pos' found =>
      show pos < pos'
      cases hturn ▸ d.turn_acts t pos with
      | still hstill => exact absurd hstill h
      | moved before w rest found ht hs hne hw =>
        have hsize := Text.size_pos hne
        omega

/-- A marker that does not start with a line break opens no comment at one. -/
theorem not_standsStill (hm : d.marker.head? ≠ some '\n') (t : Text) (p : Nat) : ¬d.StandsStill t p := by
  rintro ⟨before, rest, -, -, hopens⟩
  have hcut := d.cut_newline before.getLast? rest
  rw [if_pos hopens] at hcut
  exact cut_ne_zero hm before.getLast? '\n' rest (congrArg Prod.snd hcut)

/-- So no line runs up to such a break. -/
theorem not_stalls (hm : d.marker.head? ≠ some '\n') (t : Text) (start : Nat) : ¬d.Stalls t start := by
  intro h
  obtain ⟨p, hp⟩ := h.standsStill
  exact not_standsStill hm t p hp

/-- Tokens come out of every text unless the marker starts with a line break. -/
theorem tokenize?_eq (hm : d.marker.head? ≠ some '\n') (t : Text) : d.tokenize? t = some (d.tokenize t) := by
  have hopens : ¬d.OpensAtBreak [] t := by
    rw [opensAtBreak_iff]
    exact fun ⟨p, hp⟩ => not_standsStill hm t p hp
  exact (d.tokenizeLines?_append [] t (.inr (.inl rfl)) []).2 hopens

/-- **Lexing ends unless a line break opens a comment.**  A turn ends the line or moves forward, unless
    it stands on such a break.  So a line is over exactly if its own break opens no comment: then after at
    most one turn for each byte and one more, with an end behind its start, and what comes out is the
    line.  Where its break opens a comment no number of turns ends it.  All tokens of a text come exactly
    if no break in it opens a comment.  No break ever does if the marker does not start with one. -/
theorem lexer_ends_iff (d : Dialect) (t : Text) :
    (∀ pos, d.Progresses t pos ↔ ¬d.StandsStill t pos) ∧
    (∀ start, (∃ n, d.posAfter t start n = none) ↔ ¬d.Stalls t start) ∧
    (∀ start, ¬d.Stalls t start →
      d.posAfter t start (t.size - start + 1) = none ∧ d.lexLine? t start = some (d.lexLine t start) ∧
        (start < t.size → start < (d.lexLine t start).stop)) ∧
    (∀ start, d.Stalls t start → d.lexLine? t start = none) ∧
    ((∀ p, ¬d.StandsStill t p) → d.tokenize? t = some (d.tokenize t)) ∧
    ((∃ p, d.StandsStill t p) → d.tokenize? t = none) ∧
    (d.marker.head? ≠ some '\n' → ∀ p, ¬d.StandsStill t p ∧ ¬d.Stalls t p) := by
  have htokens := d.tokenizeLines?_append [] t (Or.inr (Or.inl rfl)) []
  refine ⟨d.progresses_iff t, fun start => ⟨?_, ?_⟩, fun start h => ⟨?_, ?_, ?_⟩, ?_, ?_, ?_, ?_⟩
  · rintro ⟨n, hn⟩ hstalls
    obtain ⟨pos, hpos, -⟩ := hstalls.posAfter n
    rw [hn] at hpos
    cases hpos
  · intro h
    exact ⟨_, posAfter_eq_none h⟩
  · exact posAfter_eq_none h
  · exact lexLine?_eq h
  · exact d.lexLine_lt_stop
  · intro start h
    exact h.lexLine?
  · intro h
    exact htokens.2 fun hb => (opensAtBreak_iff.1 hb).elim h
  · intro h
    exact htokens.1 (opensAtBreak_iff.2 h)
  · intro hm p
    refine ⟨not_standsStill hm t p, fun hstalls => ?_⟩
    obtain ⟨q, hq⟩ := hstalls.standsStill
    exact not_standsStill hm t q hq

/-- With a line break for a marker, the lexer never gets over the first line break it meets. -/
theorem line_break_marker_stalls :
    (⟨['\n'], true⟩ : Dialect).turn ['\n'] 0 = .onward 0 none ∧
    (∀ n, (⟨['\n'], true⟩ : Dialect).posAfter ['\n'] 0 n ≠ none) ∧
    (⟨['\n'], true⟩ : Dialect).lexLine? ['\n'] 0 = none ∧
    (⟨['\n'], true⟩ : Dialect).tokenize? ['\n'] = none := by
  have hstill : (⟨['\n'], true⟩ : Dialect).StandsStill ['\n'] 0 := ⟨[], [], rfl, rfl, by decide⟩
  refine ⟨hstill.turn, fun n hn => ?_, hstill.stalls.lexLine?, ?_⟩
  · obtain ⟨pos, hpos, -⟩ := hstill.stalls.posAfter n
    rw [hn] at hpos
    cases hpos
  · exact (tokenizeLines?_append _ [] _ (Or.inr (Or.inl rfl)) []).1 (opensAtBreak_iff.2 ⟨0, hstill⟩)

end Dialect

end BlockScript
