/-
  The text of a level's pattern, and what it stands for.

  A level is written down as the text of a regular expression.  `Pattern.read` reads such a text, bracket by
  bracket, and numbers its groups in the order in which they open.  It refuses a text whose brackets do not
  match, that gives a name twice, or that has a special character where it means nothing.

  1. One piece.  Every piece that a level is written with is read as what it stands for; an escaped character
     stands for itself, whichever it is (`next_escape`).
  2. One level.  Its text is read as its pattern (`read_pattern`).  So no character of a literal is taken for
     anything but itself, the group of a literal has the number of the literal, and no text is refused.

  The main results are `find_eq_findByPattern` and `find_level`: every level of a compiled tree takes what its
  regular expression finds.
-/
import BlockScript.Loop
import BlockScript.Proofs.KeywordRuns
import BlockScript.Proofs.LevelPatterns

namespace BlockScript

variable {ignoreCase : Bool}

/-! ## The pieces of a text -/

/-- A piece of the text of a pattern. -/
inductive Mark
  | item (p : Pattern)
  | bar
  | scope
  | group (name : Text)
  | close

namespace Mark

/-- The pieces that have one spelling. -/
def spellings : List (Text × Mark) :=
  [(['\\', 'b'], item .boundary), (['^'], item .lineStart),
    (['[', ' ', '\\', 't', ']', '*'], item .blanks), (['|'], bar), (['(', '?', ':'], scope), ([')'], close)]

/-- The characters that only stand for themselves behind a backslash. -/
def special : Text := ['\\', '.', '+', '*', '?', '(', ')', '|', '[', '\x7b', '^', '$']

/-- Whether a character stands for itself behind a backslash. -/
def escapable (c : Char) : Bool := c.toNat < 128 && !c.isAlphanum && c ≠ '<' && c ≠ '>'

/-- The first piece of a text that starts with no spelling, and the text behind it: a named group that opens,
    or a character. -/
def nextOther : Text → Option (Mark × Text)
  | '(' :: '?' :: 'P' :: '<' :: cs =>
    match cs.dropWhile (· ≠ '>') with
    | [] => none
    | _ :: rest => some (group (cs.takeWhile (· ≠ '>')), rest)
  | '\\' :: c :: cs => if escapable c then some (item (.char c), cs) else none
  | c :: cs => if c ∈ special then none else some (item (.char c), cs)
  | [] => none

/-- The first piece of a text, and the text behind it. -/
def next (t : Text) : Option (Mark × Text) :=
  match spellings.find? fun s => s.1.isPrefixOf t with
  | some (w, m) => some (m, t.drop w.length)
  | none => nextOther t

theorem next_spelling {w : Text} {m : Mark} (h : (w, m) ∈ spellings) (rest : Text) :
    next (w ++ rest) = some (m, rest) := by
  simp only [spellings, List.mem_cons, List.not_mem_nil, or_false, Prod.mk.injEq] at h
  rcases h with ⟨rfl, rfl⟩ | ⟨rfl, rfl⟩ | ⟨rfl, rfl⟩ | ⟨rfl, rfl⟩ | ⟨rfl, rfl⟩ | ⟨rfl, rfl⟩ <;> rfl

theorem next_of_unspelled {t : Text} (h : ∀ s ∈ spellings, ¬s.1 <+: t) : next t = nextOther t := by
  have hfind : spellings.find? (fun s => s.1.isPrefixOf t) = none := by
    simpa only [List.find?_eq_none, List.isPrefixOf_iff_prefix] using h
  rw [next, hfind]

theorem next_group {name : Text} (h : '>' ∉ name) (rest : Text) :
    next ('(' :: '?' :: 'P' :: '<' :: (name ++ '>' :: rest)) = some (group name, rest) := by
  have hname : ∀ c ∈ name, decide (c ≠ '>') = true := fun c hc => decide_eq_true fun hc' => h (hc' ▸ hc)
  rw [next_of_unspelled (by simp [spellings, List.cons_prefix_cons]), nextOther,
    List.dropWhile_append_of_pos hname, List.takeWhile_append_of_pos hname]
  simp

theorem next_backslash {c : Char} (h : escapable c = true) (rest : Text) :
    next ('\\' :: c :: rest) = some (item (.char c), rest) := by
  have hb : 'b' ≠ c := by rintro rfl; exact absurd h (by decide)
  rw [next_of_unspelled (by simp [spellings, List.cons_prefix_cons, hb])]
  exact if_pos h

theorem next_plain {c : Char} (h : c ∉ special) (rest : Text) :
    next (c :: rest) = some (item (.char c), rest) := by
  have hhead : ∀ s ∈ spellings, ∃ d ∈ special, s.1.head? = some d := by simp [spellings, special]
  have hunspelled : ∀ s ∈ spellings, ¬s.1 <+: c :: rest := by
    intro s hs hfront
    obtain ⟨d, hd, hsd⟩ := hhead s hs
    obtain ⟨w, hw⟩ := List.head?_eq_some_iff.1 hsd
    rw [hw, List.cons_prefix_cons] at hfront
    exact h (hfront.1 ▸ hd)
  have hbracket : c ≠ '(' := fun hc => h (hc ▸ by decide)
  have hslash : c ≠ '\\' := fun hc => h (hc ▸ by decide)
  rw [next_of_unspelled hunspelled, nextOther, if_neg h]
  · intro cs hc
    exact absurd hc hbracket
  · intro d cs hc
    exact absurd hc hslash

/-- A character of a literal stands for itself, behind a backslash where it needs one. -/
theorem next_escape (c : Char) (rest : Text) :
    next (Matcher.escape [c] ++ rest) = some (item (.char c), rest) := by
  have hmeta : Matcher.metaChars.all escapable = true := by decide
  have hspecial : special.all Matcher.metaChars.contains = true := by decide
  rw [List.all_eq_true] at hmeta hspecial
  rw [Matcher.escape, List.flatMap_singleton]
  by_cases hc : c ∈ Matcher.metaChars
  · rw [if_pos (List.contains_iff_mem.2 hc)]
    exact next_backslash (hmeta c hc) rest
  · rw [if_neg (mt List.contains_iff_mem.1 hc)]
    exact next_plain (fun h => hc (List.contains_iff_mem.1 (hspecial c h))) rest

end Mark

/-! ## Reading -/

/-- What is read of a pattern since a bracket opened: the alternatives in front of the last bar, and the
    items behind it.  A bracket may have the number of a group. -/
structure Frame where
  number : Option Nat
  alternatives : List Pattern
  items : List Pattern

namespace Frame

def add (f : Frame) (ps : List Pattern) : Frame := { f with items := f.items ++ ps }

def bar (f : Frame) : Frame := ⟨f.number, f.alternatives ++ [.sequence f.items], []⟩

def pattern (f : Frame) : Pattern := .alternation (f.alternatives ++ [.sequence f.items])

/-- The pattern between the brackets, once they close. -/
def closed (f : Frame) : Pattern := f.number.elim f.pattern fun n => .group n f.pattern

theorem add_nil (f : Frame) : f.add [] = f := by rw [add, List.append_nil]

theorem add_add (f : Frame) (ps qs : List Pattern) : (f.add ps).add qs = f.add (ps ++ qs) := by
  rw [add, add, add, List.append_assoc]

end Frame

/-- A pattern read in part: the names of its groups, the innermost open bracket and those around it. -/
structure PatternReader where
  names : List Text
  frame : Frame
  outer : List Frame

namespace PatternReader

/-- The start of a pattern. -/
def start : PatternReader := ⟨[], ⟨none, [], []⟩, []⟩

def add (r : PatternReader) (ps : List Pattern) : PatternReader := { r with frame := r.frame.add ps }

/-- Takes one piece.  A name may only be given once, and a bracket that closes needs one that is open. -/
def take : PatternReader → Mark → Option PatternReader
  | r, .item p => some (r.add [p])
  | r, .bar => some { r with frame := r.frame.bar }
  | r, .scope => some ⟨r.names, ⟨none, [], []⟩, r.frame :: r.outer⟩
  | r, .group name =>
    if name ∈ r.names then none
    else some ⟨r.names ++ [name], ⟨some r.names.length, [], []⟩, r.frame :: r.outer⟩
  | ⟨_, _, []⟩, .close => none
  | ⟨names, f, g :: outer⟩, .close => some ⟨names, g.add [f.closed], outer⟩

/-- Reads one piece of the text. -/
def step : Step (PatternReader × Text) Pattern
  | (r, []) => if r.outer.isEmpty then some (.inr r.frame.pattern) else none
  | (r, c :: cs) => do
    let (m, rest) ← Mark.next (c :: cs)
    let r ← r.take m
    return .inl (r, rest)

/-- Reads a text to its end. -/
def finish (r : PatternReader) (t : Text) : Option Pattern := step.loop (r, t)

theorem finish_mark {r r' : PatternReader} {t rest : Text} {m : Mark} (hnext : Mark.next t = some (m, rest))
    (htake : r.take m = some r') : r.finish t = r'.finish rest := by
  cases t with
  | nil => cases hnext
  | cons c cs =>
    apply loop_inl
    simp only [step, hnext, htake, Option.bind_eq_bind, Option.bind_some]
    rfl

theorem finish_spelling {r r' : PatternReader} {w : Text} {m : Mark} (h : (w, m) ∈ Mark.spellings)
    (htake : r.take m = some r') (rest : Text) : r.finish (w ++ rest) = r'.finish rest :=
  finish_mark (Mark.next_spelling h rest) htake

theorem finish_close (names : List Text) (f g : Frame) (outer : List Frame) (rest : Text) :
    (PatternReader.mk names f (g :: outer)).finish ([')'] ++ rest) =
      (PatternReader.mk names (g.add [f.closed]) outer).finish rest :=
  finish_spelling (m := .close) (by simp [Mark.spellings]) rfl rest

end PatternReader

/-- The pattern that a text stands for, and whether it ignores case. -/
def Pattern.read : Text → Option (Bool × Pattern)
  | '(' :: '?' :: 'i' :: ')' :: t => (PatternReader.start.finish t).map (true, ·)
  | t => (PatternReader.start.finish t).map (false, ·)

/-! ## The text of a level -/

/-- The text of a level without its case rule: what stands in front of the groups, and the groups. -/
def KeywordTree.levelText (t : KeywordTree) : Text :=
  (if t.anywhere then "" else "^[ \\t]*").toList ++ (['(', '?', ':'] ++
    ((String.intercalate "|" ((t.children.toList.map Branch.literal).zipIdx.map fun (l, n) =>
      Matcher.group n l)).toList ++ ([')'] ++ [])))

namespace PatternReader

variable (r : PatternReader) (rest : Text)

theorem add_add (ps qs : List Pattern) : (r.add ps).add qs = r.add (ps ++ qs) := by
  rw [add, add, add, Frame.add_add]

theorem finish_edge (c : Option Char) :
    r.finish ((Matcher.boundary c).toList ++ rest) = (r.add (Pattern.edge c)).finish rest := by
  unfold Matcher.boundary Pattern.edge
  split
  · exact finish_spelling (w := ['\\', 'b']) (m := .item .boundary) (by simp [Mark.spellings]) rfl rest
  · rw [add, Frame.add_nil]; rfl

/-- The escaped text of a literal is read as its characters. -/
theorem finish_escape (l : Text) : r.finish (Matcher.escape l ++ rest) = (r.add (l.map .char)).finish rest := by
  induction l generalizing r with
  | nil => rw [List.map_nil, add, Frame.add_nil]; rfl
  | cons c l ih =>
    have hcut : Matcher.escape ([c] ++ l) = Matcher.escape [c] ++ Matcher.escape l := List.flatMap_append
    rw [← List.singleton_append, hcut, List.append_assoc, finish_mark (Mark.next_escape c _) rfl, ih, add_add]
    rfl

/-- The name of the group with the given number. -/
def groupName (n : Nat) : Text := 'k' :: (toString n).toList

theorem groupName_eq (n : Nat) : groupName n = 'k' :: Nat.toDigits 10 n := by
  rw [groupName, Nat.toString_eq_repr, Nat.toList_repr]

theorem groupName_inj {m n : Nat} (h : groupName m = groupName n) : m = n := by
  rw [groupName_eq, groupName_eq] at h
  rw [← Nat.ofDigitChars_ten_toDigits (n := m), (List.cons.inj h).2, Nat.ofDigitChars_ten_toDigits]

theorem groupName_plain (n : Nat) : '>' ∉ groupName n := by
  intro h
  rw [groupName_eq] at h
  have hdigits : '>' ∈ Nat.toDigits 10 n := (List.mem_cons.1 h).resolve_left (by decide)
  exact absurd (Nat.isDigit_of_mem_toDigits (by decide) (by decide) hdigits) (by decide)

/-- A group is read as the literal that it is for, if the groups before it are those with lesser numbers. -/
theorem finish_group {n : Nat} (hnames : r.names = (List.range n).map groupName) (l : Text) :
    r.finish ((Matcher.group n l).toList ++ rest) =
      (PatternReader.mk ((List.range (n + 1)).map groupName) (r.frame.add [.group n (.bounded l)])
        r.outer).finish rest := by
  have htext : (Matcher.group n l).toList ++ rest =
      '(' :: '?' :: 'P' :: '<' :: (groupName n ++ '>' :: ((Matcher.boundary l.head?).toList ++
        (Matcher.escape l ++ ((Matcher.boundary l.getLast?).toList ++ ([')'] ++ rest))))) := by
    simp [Matcher.group, groupName]
  have hfresh : groupName n ∉ r.names := by
    rw [hnames, List.mem_map]
    rintro ⟨k, hk, hname⟩
    exact absurd (groupName_inj hname) (Nat.ne_of_lt (List.mem_range.1 hk))
  have hopen : r.take (.group (groupName n)) =
      some ⟨(List.range (n + 1)).map groupName, ⟨some n, [], []⟩, r.frame :: r.outer⟩ := by
    have hlength : r.names.length = n := by rw [hnames, List.length_map, List.length_range]
    rw [take, if_neg hfresh, hlength, hnames, List.range_succ, List.map_append]
    rfl
  rw [htext, finish_mark (Mark.next_group (groupName_plain n) _) hopen, finish_edge, finish_escape, finish_edge,
    add_add, add_add]
  exact finish_close ..

open Pattern in
/-- The groups of a level, up to the bracket that closes them, are read one alternative after the other. -/
theorem finish_groups {ls : List Text} (hls : ls ≠ []) (n : Nat) (before : List Pattern) (g : Frame)
    (outer : List Frame) :
    (PatternReader.mk ((List.range n).map groupName) ⟨none, before, []⟩ (g :: outer)).finish
        ((String.intercalate "|" ((ls.zipIdx n).map fun (l, k) => Matcher.group k l)).toList ++
          ([')'] ++ rest)) =
      (PatternReader.mk ((List.range (n + ls.length)).map groupName) (g.add [alternation (before ++
        (ls.zipIdx n).map fun (l, k) => sequence [group k (bounded l)])]) outer).finish rest := by
  induction ls generalizing n before with
  | nil => exact absurd rfl hls
  | cons l ls ih =>
    cases ls with
    | nil =>
      show finish _ ((String.intercalate "|" [Matcher.group n l]).toList ++ _) = _
      rw [String.intercalate_singleton, finish_group _ _ rfl]
      exact finish_close ..
    | cons l' ls =>
      show finish _
        ((String.intercalate "|" (Matcher.group n l :: Matcher.group (n + 1) l' :: _)).toList ++ _) = _
      rw [String.intercalate_cons_cons, String.toList_append, String.toList_append, List.append_assoc,
        List.append_assoc, finish_group _ _ rfl]
      refine (finish_spelling (w := ['|']) (m := .bar) (by simp [Mark.spellings]) rfl _).trans ?_
      refine (ih (List.cons_ne_nil _ _) (n + 1) (before ++ [sequence [group n (bounded l)]])).trans ?_
      rw [List.append_assoc, Nat.add_assoc, Nat.add_comm 1]
      rfl

theorem finish_nil (names : List Text) (f : Frame) : (PatternReader.mk names f []).finish [] = some f.pattern :=
  loop_inr rfl

/-- What a level that starts at the cursor has in front of its groups. -/
theorem finish_front (anywhere : Bool) :
    r.finish ((if anywhere then "" else "^[ \\t]*").toList ++ rest) =
      (r.add (if anywhere then [] else [.lineStart, .blanks])).finish rest := by
  cases anywhere with
  | true => rw [if_pos rfl, if_pos rfl, add, Frame.add_nil]; rfl
  | false =>
    refine (finish_spelling (w := ['^']) (m := .item .lineStart) (by simp [Mark.spellings]) rfl _).trans ?_
    refine (finish_spelling (w := ['[', ' ', '\\', 't', ']', '*']) (m := .item .blanks)
      (by simp [Mark.spellings]) rfl rest).trans ?_
    rw [add_add]
    rfl

theorem finish_levelText (t : KeywordTree) : start.finish t.levelText = some t.levelPattern := by
  rw [KeywordTree.levelText, finish_front, finish_spelling (m := .scope) (by simp [Mark.spellings]) rfl,
    KeywordTree.levelPattern, literalGroups_eq]
  by_cases hls : t.children.toList.map Branch.literal = []
  · -- nothing stands between the brackets
    rw [hls]
    exact (finish_close ..).trans (finish_nil ..)
  · exact (finish_groups [] hls 0 [] _ []).trans (finish_nil ..)

end PatternReader

/-- **The text of a level is read as the pattern of the level**, with the case rule of its matcher. -/
theorem Matcher.read_pattern (m : Matcher) :
    Pattern.read m.pattern.toList = some (m.ignoreCase, m.tree.levelPattern) := by
  have htext : m.pattern.toList = (if m.ignoreCase then "(?i)" else "").toList ++ m.tree.levelText := by
    simp [pattern, KeywordTree.levelText]
  have hread : Pattern.read ((if m.ignoreCase then "(?i)" else "").toList ++ m.tree.levelText) =
      (PatternReader.start.finish m.tree.levelText).map (m.ignoreCase, ·) := by
    unfold KeywordTree.levelText
    cases m.ignoreCase <;> cases m.tree.anywhere <;> rfl
  rw [htext, hread, PatternReader.finish_levelText]
  rfl

/-! ## The search of a level -/

/-- The hit of a level as its regular expression finds it: nothing if there are no literals, else the literal
    whose group took part in the first match from `cursor` on.  A level in anywhere mode searches the line, any
    other one the part of it behind the cursor. -/
def Matcher.findByPattern (m : Matcher) (line : Text) (cursor : Nat) : Option Hit :=
  if m.tree.children.toList.isEmpty then none else do
    let (before, rest) ← line.splitAt? cursor
    let (ignoreCase, p) ← Pattern.read m.pattern.toList
    let way ← p.search ignoreCase ⟨if m.tree.anywhere then before.getLast? else none, rest, cursor⟩
    pickHit m.tree.children.toList way

theorem KeywordTree.find_nil {t : KeywordTree} (h : t.children.toList = []) (line : Text) (cursor : Nat) :
    t.find ignoreCase line cursor = none := by
  cases hfind : t.find ignoreCase line cursor with
  | none => rfl
  | some hit =>
    have hmem := (find_within hfind).1
    rw [h] at hmem
    cases hmem

/-- **A level takes what its regular expression finds.** -/
theorem Matcher.find_eq_findByPattern {m : Matcher} (hne : ∀ b ∈ m.tree.children.toList, b.literal ≠ [])
    (line : Text) (cursor : Nat) :
    m.tree.find m.ignoreCase line cursor = m.findByPattern line cursor := by
  unfold findByPattern
  split
  · rename_i hempty
    exact KeywordTree.find_nil (List.isEmpty_iff.1 hempty) line cursor
  · rename_i hbs
    rw [m.read_pattern, KeywordTree.find]
    cases line.splitAt? cursor with
    | none => rfl
    | some parts =>
      exact (KeywordTree.search_levelPattern (mt List.isEmpty_iff.2 hbs) hne parts.1.getLast? cursor
        parts.2).symm

/-- **Every level of a compiled tree takes what its regular expression finds.** -/
theorem Matcher.find_level {t : KeywordTree} {m : Matcher} (h : compile t ignoreCase = .ok m) {s : KeywordTree}
    (hs : m.tree.Level s) (line : Text) (cursor : Nat) :
    s.find ignoreCase line cursor = (Matcher.mk s ignoreCase).findByPattern line cursor := by
  obtain ⟨hcheck, rfl⟩ := compile_eq_ok h
  obtain ⟨s, hlevel, rfl⟩ := KeywordTree.level_ordered.1 hs
  apply find_eq_findByPattern (m := ⟨s.ordered, ignoreCase⟩)
  intro b hb
  obtain ⟨b, hmem, rfl⟩ := KeywordTree.mem_ordered.1 hb
  exact (Branches.check_distinct (hlevel.check hcheck)).ne_nil b hmem

end BlockScript
