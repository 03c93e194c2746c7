/-
  The line that closes a construct.

  The closing text of a construct is a keyword, for some constructs with a name after it.  On a line of
  its own it is read as one closer (`tokenizeFrom_withName`), and the tokens before it stay what they
  were (`tokenize_appendLine`).  Whether the construct accepts that closer is then read off the table of
  blocks and the name (`ClosedBy.accepts_iff`), and if it does not, it stays the innermost open one.
-/
import BlockScript.Nesting.Closing
import BlockScript.Proofs.FullParse
import BlockScript.Proofs.TokenSpans

namespace BlockScript

/-! ## Words on a line -/

/-- Whether a text is a word of a script. -/
def Text.IsWord (w : Text) : Prop := w ≠ [] ∧ ∀ c ∈ w, isScriptWord c

theorem Keyword.isWord_spelling (k : Keyword) : k.spelling.IsWord := by
  have hall : k.spelling.all isScriptWord := by cases k <;> decide
  exact ⟨by cases k <;> decide, List.all_eq_true.1 hall⟩

namespace Dialect

variable {d : Dialect} {w rest : Text}

theorem classHere_word (hd : d.marker = ['#']) {c : Char} (hc : isScriptWord c) (before : Option Char)
    (cs : Text) : d.classHere before (c :: cs) = .word := by
  have hne : '#' ≠ c := by
    rintro rfl
    exact absurd hc (by decide)
  rw [classHere, opensComment, hd]
  simpa [hne, isScriptWord] using hc

theorem classHere_ne_word (hrest : rest.head?.any isScriptWord = false) (before : Option Char) :
    d.classHere before rest ≠ .word := by
  cases rest with
  | nil => simp [classHere]
  | cons c cs =>
    intro hclass
    have hc : CharClass.of c = .word := of_eq_of_classHere hclass (by simp)
    simp [isScriptWord, hc] at hrest

theorem run_word (hd : d.marker = ['#']) (hw : ∀ c ∈ w, isScriptWord c)
    (hrest : rest.head?.any isScriptWord = false) (before : Char) :
    d.run .word before (w ++ rest) = w.length := by
  induction w generalizing before with
  | nil =>
    have hclass := classHere_ne_word (d := d) hrest (some before)
    cases rest with
    | nil => rfl
    | cons c cs => exact if_neg hclass
  | cons c cs ih =>
    have hclass := classHere_word hd (hw c (List.mem_cons_self ..)) (some before) (cs ++ rest)
    rw [List.cons_append, run, if_pos hclass, ih fun x hx => hw x (List.mem_cons_of_mem _ hx)]
    rfl

/-- Where `#` opens comments a word is a piece of its own. -/
theorem pieces_word (hd : d.marker = ['#']) (hw : w.IsWord) (before : Option Char) (rest : Text)
    (hrest : rest.head?.any isScriptWord = false) :
    d.pieces before (w ++ rest) =
      (⟨.word, w⟩ :: (d.pieces w.getLast? rest).1, (d.pieces w.getLast? rest).2) := by
  obtain ⟨hne, hchars⟩ := hw
  cases w with
  | nil => exact absurd rfl hne
  | cons c cs =>
    have hclass := classHere_word hd (hchars c (List.mem_cons_self ..)) before (cs ++ rest)
    have hrun := run_word hd (fun x hx => hchars x (List.mem_cons_of_mem _ hx)) hrest c
    have hcut : d.cut before c (cs ++ rest) = (.word, (c :: cs).length) := by
      rw [cut, hclass]
      dsimp only
      rw [hrun]
      rfl
    rw [List.cons_append, pieces_cons, hcut, if_neg (by simp)]
    dsimp only
    rw [← List.cons_append, List.take_left, List.drop_left]

end Dialect

/-! ## The closing text as a token -/

/-- The keywords that closing texts start with, and those of them that no name follows. -/
def Keyword.Closing (k : Keyword) (name : Option Text) : Prop :=
  k = .endWord ∨ k = .nextWord ∨ k = .grestoreWord ∧ name = none

/-- The closer that a keyword and a name are, from offset `p` on. -/
def closerAt (p : Nat) (k : Keyword) (name : Option Text) : Token :=
  let kind :=
    match k, name with
    | .endWord, none => .endBare
    | .endWord, some _ => .endThing
    | .nextWord, none => .nextBare
    | .nextWord, some _ => .nextVar
    | _, _ => .grestore
  ⟨kind, p, p + Text.size (Profile.withName k name), name.map (⟨p + k.spelling.size + 1, ·⟩)⟩

namespace Dialect

variable {d : Dialect} {k : Keyword} {name : Option Text}

theorem keyword?_spelling (d : Dialect) (k : Keyword) : d.keyword? k.spelling = some k := by
  obtain ⟨marker, ignoreCase⟩ := d
  cases ignoreCase <;> cases k <;> rfl

theorem withName_noBreak (hname : ∀ w, name = some w → w.IsWord) :
    ∀ c ∈ Profile.withName k name, c ≠ '\n' := by
  have hword : ∀ {w : Text}, w.IsWord → ∀ c ∈ w, c ≠ '\n' := by
    rintro w hw c hc rfl
    exact absurd (hw.2 _ hc) (by decide)
  cases name with
  | none => exact hword k.isWord_spelling
  | some w =>
    intro c hc
    rcases List.mem_append.1 hc with hc | hc
    · exact hword k.isWord_spelling c hc
    · rcases List.mem_cons.1 hc with rfl | hc
      · decide
      · exact hword (hname w rfl) c hc

/-- The lexemes of a closing text: its keyword, and its name after a space. -/
theorem place_withName (hd : d.marker = ['#']) (hname : ∀ w, name = some w → w.IsWord) (p : Nat) :
    place p (d.pieces none (Profile.withName k name)).1 =
      ⟨.word, p, k.spelling⟩ :: (name.map (⟨.word, p + k.spelling.size + 1, ·⟩)).toList := by
  cases name with
  | none =>
    have hkey := pieces_word hd k.isWord_spelling none [] rfl
    rw [List.append_nil] at hkey
    rw [Profile.withName, hkey, pieces]
    rfl
  | some w =>
    have hmarker : ∀ c ∈ d.marker, ¬isBlank c := by
      intro c hc
      rw [hd, List.mem_singleton] at hc
      rw [hc]
      decide
    have hspace : isScriptWord ' ' = false := by decide
    have hkey := pieces_word hd k.isWord_spelling none (' ' :: w) hspace
    have hblank : d.pieces k.spelling.getLast? (' ' :: w) =
        (⟨.blank, [' ']⟩ :: (d.pieces none w).1, (d.pieces none w).2) :=
      pieces_blank hmarker (by decide) (by decide) w
    have hword := pieces_word hd (hname w rfl) none [] rfl
    rw [List.append_nil] at hword
    rw [Profile.withName, hkey, hblank, hword, pieces]
    rfl

theorem tokensOf_closing (hk : k.Closing name) (p : Nat) :
    d.tokensOf (⟨.word, p, k.spelling⟩ :: (name.map (⟨.word, p + k.spelling.size + 1, ·⟩)).toList) =
      [closerAt p k name] := by
  have hkey := d.keyword?_spelling k
  have hbare : ∀ kind, (⟨.word, p, k.spelling⟩ : Lexeme).token kind =
      ⟨kind, p, p + Text.size (Profile.withName k none), none⟩ := fun _ => rfl
  have hnamed : ∀ kind w, (⟨.word, p, k.spelling⟩ : Lexeme).tokenNamed kind
      ⟨.word, p + k.spelling.size + 1, w⟩ = ⟨kind, p, p + Text.size (Profile.withName k (some w)),
        some ⟨p + k.spelling.size + 1, w⟩⟩ := by
    intro kind w
    have hspace : ' '.utf8Size = 1 := rfl
    simp only [Lexeme.tokenNamed, Lexeme.stop, Profile.withName, Text.size_append, Text.size_cons, hspace,
      Nat.add_assoc]
  have hnil : d.read .outside [] = [] := rfl
  rw [tokensOf, read.eq_def]
  rcases hk with rfl | rfl | ⟨rfl, rfl⟩
  · cases name with
    | none => simp [hkey, Keyword.folding, closerAt, hbare]
    | some w => simp [hkey, Keyword.folding, closerAt, hnamed, hnil]
  · cases name with
    | none => simp [hkey, Keyword.folding, closerAt, hbare]
    | some w => simp [hkey, Keyword.folding, closerAt, hnamed, hnil]
  · simp [hkey, Keyword.folding, wordKind, closerAt, hbare, hnil]

/-- A closing text on a line of its own is one closer. -/
theorem tokenizeFrom_withName (hd : d.marker = ['#']) (hk : k.Closing name)
    (hname : ∀ w, name = some w → w.IsWord) (p : Nat) :
    ∃ sep, sep.kind = .separator ∧
      d.tokenizeFrom p (Profile.withName k name ++ ['\n']) = [closerAt p k name, sep] := by
  have hm : '\n' ∉ d.marker := by simp [hd]
  have hbreak := withName_noBreak (k := k) hname
  have hline : Text.IsLine (Profile.withName k name ++ ['\n']) [] := .inl ⟨_, hbreak, rfl⟩
  have htokens := tokenizeFrom_line hm hline (by simp) p
  rw [List.append_nil, tokenizeFrom_nil, List.append_nil, tokensOf_snoc_break hm hbreak,
    place_withName hd hname] at htokens
  rw [tokensOf_closing hk] at htokens
  exact ⟨_, rfl, htokens⟩

/-- A line added to a text leaves the tokens of the text as they are; at most a separator comes between
    them and those of the line. -/
theorem tokenize_appendLine (hm : '\n' ∉ d.marker) (t line : Text) :
    ∃ seps p, (∀ s ∈ seps, s.kind = .separator) ∧
      d.tokenize (Profile.appendLine t line) =
        d.tokenize t ++ (seps ++ d.tokenizeFrom p (line ++ ['\n'])) := by
  unfold Profile.appendLine
  by_cases h : t.EndsLine
  · have hcond : (t.isEmpty || t.getLast? = some '\n') = true := by
      rcases h with rfl | h
      · rfl
      · simp [h]
    refine ⟨[], 0 + t.size, by simp, ?_⟩
    rw [if_pos hcond, List.append_nil, List.append_assoc, tokenize, tokenizeFrom_append_lines hm h]
    rfl
  · have hcond : ¬(t.isEmpty || t.getLast? = some '\n') = true := by
      simp only [Bool.or_eq_true, List.isEmpty_iff, decide_eq_true_eq]
      exact h
    have hbroken : Text.EndsLine (t ++ ['\n']) := Or.inr (by simp)
    refine ⟨[⟨.separator, 0 + t.size, 0 + t.size + 1, none⟩], 0 + Text.size (t ++ ['\n']), by simp, ?_⟩
    rw [if_neg hcond, List.append_assoc, tokenize, tokenizeFrom_append_lines hm hbroken,
      tokenizeFrom_snoc_break hm, List.append_assoc]
    rfl

end Dialect

namespace Profile

variable {P : Profile} {t closing : Text} {o : Token} {k : Keyword} {name : Option Text}

/-! ## The closing text of a construct -/

/-- The openers that their closing text does not close: a `for` that no variable follows, a `begin`
    without a name, and a `begin` whose name spells `if` or `sub`. -/
inductive Unclosable (P : Profile) (t : Text) (o : Token) : Prop
  | noVar (hk : o.kind = .forLoop) (hnext : (P.dialect.tokenAfter t o.stop).kind ≠ .var)
  | noName (hk : o.kind = .beginBlock) (hname : o.name = none)
  | otherFamily (n : Name) (hk : o.kind = .beginBlock) (hname : o.name = some n)
      (hspells : P.dialect.isKeyword n.text .ifWord ∨ P.dialect.isKeyword n.text .subWord)

/-- The keyword and the name of the closing text of an opener. -/
inductive ClosedBy (P : Profile) (t : Text) (o : Token) : Keyword → Option Text → Prop
  | loop (hk : o.kind = .whileLoop ∨ o.kind = .untilLoop) : ClosedBy P t o .nextWord none
  | ifBlock (hk : o.kind = .ifBlock) : ClosedBy P t o .endWord (some Keyword.ifWord.spelling)
  | sub (hk : o.kind = .sub) : ClosedBy P t o .endWord (some Keyword.subWord.spelling)
  | gsave (hk : o.kind = .gsave) : ClosedBy P t o .grestoreWord none
  | forLoop (hk : o.kind = .forLoop) : ClosedBy P t o .nextWord
      (let var := P.dialect.tokenAfter t o.stop
      if var.kind = .var then some (var.textIn t) else none)
  | beginBlock (hk : o.kind = .beginBlock) : ClosedBy P t o .endWord (o.name.map Name.text)

/-- In a cleanly nested script the closing text is that of the innermost open construct. -/
theorem exists_closedBy (hlimit : P.layout.maxVisits = 0) (hclean : P.CleanlyNested (P.tokenize t))
    (hok : P.closingText (Buffer.ofText t) t.size = .ok closing) :
    ∃ o below k name, (parse (P.tokenize t)).stack = o :: below ∧ P.ClosedBy t o k name ∧
      closing = withName k name := by
  have hcut : P.dialect.Cut t t.size (P.tokenize t).reverse [] :=
    .of_laid (List.append_nil _).symm (P.dialect.tokenize_laid t) (Nat.le_refl _)
  have hsound := P.scanner_sound (Buffer.ofText t)
  have hgives := unclosedBefore_gives hsound {} hcut
  have hfirst : (P.unclosedIn {} (P.tokenize t).reverse).1 = (parse (P.tokenize t)).stack.head? := by
    have hrev : P.CleanlyNested ((P.tokenize t).reverse.reverse ++ []) := by
      rwa [List.reverse_reverse, List.append_nil]
    have hhead := unclosedIn_nested hrev
    rwa [List.reverse_reverse] at hhead
  unfold closingText at hok
  rw [Buffer.ofText_size, Nat.min_self] at hok
  obtain ⟨hfound, hunlimited⟩ := hgives.of_unlimited (scanner_budget hlimit)
  have hs := hgives.follows.sound hsound
  generalize P.unclosedBefore (Buffer.ofText t) P.scanner {} t.size = r at hok hfound hunlimited hs
  obtain ⟨found, w, s⟩ := r
  rw [← hfound] at hfirst
  cases found with
  | none => cases hok
  | some o =>
    obtain ⟨below, hstack⟩ := List.head?_eq_some_iff.1 hfirst.symm
    have hnext : (s.next P.dialect (Buffer.ofText t) o.stop).1 = P.dialect.tokenAfter t o.stop :=
      ((Scanner.next_spec hs o.stop).of_unlimited hunlimited).1
    dsimp only at hok
    split at hok
    · cases hok
    · -- no pair on the way had differing names; the text is given by the kind of the construct
      split at hok
      · next hk =>
        cases hok
        exact ⟨o, below, _, _, hstack, .loop (.inl hk), rfl⟩
      · next hk =>
        cases hok
        exact ⟨o, below, _, _, hstack, .loop (.inr hk), rfl⟩
      · next hk =>
        cases hok
        exact ⟨o, below, _, _, hstack, .ifBlock hk, rfl⟩
      · next hk =>
        cases hok
        exact ⟨o, below, _, _, hstack, .sub hk, rfl⟩
      · next hk =>
        cases hok
        exact ⟨o, below, _, _, hstack, .gsave hk, rfl⟩
      · next hk =>
        rw [hnext] at hok
        cases hok
        exact ⟨o, below, _, _, hstack, .forLoop hk, rfl⟩
      · next hk =>
        cases hok
        exact ⟨o, below, _, _, hstack, .beginBlock hk, rfl⟩
      · cases hok

/-- An opener accepts a keyword of its construct, and an `end WORD` if the word is one for it. -/
theorem accepts_iff_mem (o c : Token) : P.accepts o c ↔
    c.kind ∈ blockTable.reachOf o.kind ∧ (c.kind = .endThing → o.kind = P.endFamily c.nameText) := by
  rw [accepts, PrecedenceTable.closes, Bool.and_eq_true, List.contains_iff_mem, Bool.or_eq_true,
    decide_eq_true_iff, decide_eq_true_iff]
  refine and_congr_right fun _ => ⟨fun h hk => h.resolve_left (· hk), fun h => ?_⟩
  by_cases hk : c.kind = .endThing
  · exact Or.inr (h hk)
  · exact Or.inl hk

theorem endFamily_if (P : Profile) : P.endFamily Keyword.ifWord.spelling = .ifBlock := by
  obtain ⟨⟨marker, ignoreCase⟩, layout⟩ := P
  cases ignoreCase <;> rfl

theorem endFamily_sub (P : Profile) : P.endFamily Keyword.subWord.spelling = .sub := by
  obtain ⟨⟨marker, ignoreCase⟩, layout⟩ := P
  cases ignoreCase <;> rfl

/-- Words that spell neither `if` nor `sub` name blocks. -/
theorem endFamily_eq_beginBlock (w : Text) : P.endFamily w = .beginBlock ↔
    ¬(P.dialect.isKeyword w .ifWord ∨ P.dialect.isKeyword w .subWord) := by
  unfold endFamily
  split
  · simp [*]
  · split
    · simp [*]
    · simp [*]

namespace ClosedBy

theorem isClosing (h : P.ClosedBy t o k name) : k.Closing name := by
  cases h with
  | loop | forLoop => exact .inr (.inl rfl)
  | ifBlock | sub | beginBlock => exact .inl rfl
  | gsave => exact .inr (.inr ⟨rfl, rfl⟩)

/-- The name in a closing text is a word: a keyword, a variable of the script, or a name in it. -/
theorem isWord (h : P.ClosedBy t o k name) (hd : P.dialect.marker = ['#']) (ho : o ∈ P.tokenize t) {w : Text}
    (hw : name = some w) : w.IsWord := by
  have hm : P.dialect.marker.head? ≠ some '\n' := by simp [hd]
  have hpiece : ∀ {p q}, P.dialect.PieceAt t p q → q.kind = .word → q.text.IsWord := by
    intro p q hq hk
    obtain ⟨before, rest, -, -, hfits⟩ := hq.fits hm
    rw [Dialect.Fits, hk] at hfits
    exact ⟨hq.text_ne_nil, hfits⟩
  cases h with
  | loop | gsave => cases hw
  | ifBlock | sub =>
    obtain rfl := Option.some.inj hw
    exact Keyword.isWord_spelling _
  | forLoop hk =>
    dsimp only at hw
    split at hw
    · next hvar =>
      obtain rfl := Option.some.inj hw
      have hmem : P.dialect.tokenAfter t o.stop ∈ P.dialect.tokenize t :=
        Dialect.tokenAfter_mem (by simp [hvar])
      obtain ⟨q, hq, ⟨hstop, -, hword⟩ | ⟨p, q', -, -, -, -, -, hne⟩⟩ := Dialect.exists_pieceAt_of_mem hmem
      · rw [Token.textIn, hstop, hq.hasAt.slice]
        exact hpiece hq (hword hvar)
      · exact absurd hvar hne
    · cases hw
  | beginBlock hk =>
    obtain ⟨n, hn, rfl⟩ := Option.map_eq_some_iff.1 hw
    obtain ⟨q, -, ⟨-, hnone, -⟩ | ⟨p, q', hq', hk', -, -, hname, -⟩⟩ := Dialect.exists_pieceAt_of_mem ho
    · rw [hn] at hnone
      cases hnone
    · rw [hn] at hname
      obtain rfl := Option.some.inj hname
      exact hpiece hq' hk'

/-- **An opener accepts the closer that its closing text is, unless it is one of the exceptions.** -/
theorem accepts_iff (h : P.ClosedBy t o k name) (p : Nat) :
    P.accepts o (closerAt p k name) ↔ ¬P.Unclosable t o := by
  -- only a `for` and a `begin` can be exceptions
  have hclosable : o.kind ≠ .forLoop → o.kind ≠ .beginBlock → ¬P.Unclosable t o := by
    rintro hfor hbegin (⟨hk⟩ | ⟨hk⟩ | ⟨-, hk⟩)
    · exact hfor hk
    · exact hbegin hk
    · exact hbegin hk
  rw [accepts_iff_mem, reachOf_blockTable]
  cases h with
  | loop hk => rcases hk with hk | hk <;> simp [hk, hclosable, closerAt]
  | ifBlock hk => simp [hk, hclosable, closerAt, Token.nameText, endFamily_if]
  | sub hk => simp [hk, hclosable, closerAt, Token.nameText, endFamily_sub]
  | gsave hk => simp [hk, hclosable, closerAt]
  | forLoop hk =>
    by_cases hvar : (P.dialect.tokenAfter t o.stop).kind = .var
    · have hclosable : ¬P.Unclosable t o := by
        rintro (⟨-, hnext⟩ | ⟨hk'⟩ | ⟨-, hk'⟩)
        · exact hnext hvar
        · simp [hk] at hk'
        · simp [hk] at hk'
      simp [hk, hvar, hclosable, closerAt]
    · simp [hk, hvar, Unclosable.noVar hk hvar, closerAt]
  | beginBlock hk =>
    cases hname : o.name with
    | none => simp [hk, Unclosable.noName hk hname, closerAt]
    | some n =>
      have hfamily : P.Unclosable t o ↔
          P.dialect.isKeyword n.text .ifWord ∨ P.dialect.isKeyword n.text .subWord := by
        constructor
        · rintro (⟨hk'⟩ | ⟨-, hnone⟩ | ⟨n', -, hname', hspells⟩)
          · simp [hk] at hk'
          · simp [hname] at hnone
          · rw [hname] at hname'
            obtain rfl := Option.some.inj hname'
            exact hspells
        · exact Unclosable.otherFamily n hk hname
      rw [hfamily, ← endFamily_eq_beginBlock]
      simp [hk, closerAt, Token.nameText, eq_comm]

end ClosedBy

/-! ## What is open behind the closing line -/

theorem context_size (hlimit : P.layout.maxVisits = 0) (t : Text) :
    P.context (Buffer.ofText t) t.size =
      (P.allUnclosedIn {} [] (P.tokenize t).reverse).map Token.construct := by
  have hall : (P.dialect.tokenize t).filter (·.start < t.size) = P.tokenize t := by
    refine List.filter_eq_self.2 fun x hx => decide_eq_true ?_
    have := (P.dialect.tokenize_laid t).bounds hx
    omega
  rw [context_eq_in hlimit, Buffer.ofText_text, hall]

theorem allUnclosedIn_separators {seps : List Token} (hseps : ∀ s ∈ seps, s.kind = .separator) (w : Walk)
    (inner rev : List Token) : P.allUnclosedIn w inner (seps ++ rev) = P.allUnclosedIn w inner rev := by
  induction seps with
  | nil => rfl
  | cons s seps ih =>
    have hk := hseps s (List.mem_cons_self ..)
    have hrole : s.roleAfter (seps ++ rev).head? = .neutral := by
      rw [Token.roleAfter, if_neg (by simp [hk]), hk, TokenKind.role_eq]
    rw [List.cons_append, allUnclosedIn, hrole]
    exact ih fun x hx => hseps x (List.mem_cons_of_mem _ hx)

theorem allUnclosedIn_closer {c : Token} (hc : c.kind.role = .closer) (rev : List Token) :
    P.allUnclosedIn {} [] (c :: rev) = P.allUnclosedIn { pending := [c] } [] rev := by
  rw [allUnclosedIn, Token.roleAfter_eq_closer.2 hc]
  rfl

theorem role_closerAt (hk : k.Closing name) (p : Nat) : (closerAt p k name).kind.role = .closer := by
  rcases hk with rfl | rfl | ⟨rfl, rfl⟩
  · cases name <;> exact TokenKind.role_eq _
  · cases name <;> exact TokenKind.role_eq _
  · exact TokenKind.role_eq _

/-- Behind a closing line the constructs are open that a search finds which starts with its closer. -/
theorem context_appendLine (hd : P.dialect.marker = ['#']) (hlimit : P.layout.maxVisits = 0)
    (hk : k.Closing name) (hname : ∀ w, name = some w → w.IsWord) (t : Text) :
    ∃ p, P.context (Buffer.ofText (appendLine t (withName k name))) (appendLine t (withName k name)).size =
      (P.allUnclosedIn { pending := [closerAt p k name] } [] (P.tokenize t).reverse).map
        Token.construct := by
  have hm : '\n' ∉ P.dialect.marker := by simp [hd]
  obtain ⟨seps, p, hseps, htokens⟩ := Dialect.tokenize_appendLine hm t (withName k name)
  obtain ⟨sep, hsep, hline⟩ := Dialect.tokenizeFrom_withName hd hk hname p
  refine ⟨p, ?_⟩
  have hrev : (P.tokenize (appendLine t (withName k name))).reverse =
      [sep] ++ closerAt p k name :: (seps.reverse ++ (P.tokenize t).reverse) := by
    rw [show P.tokenize (appendLine t (withName k name)) = _ from htokens, hline]
    simp [tokenize]
  rw [context_size hlimit, hrev, allUnclosedIn_separators (by simpa using hsep),
    allUnclosedIn_closer (role_closerAt hk p), allUnclosedIn_separators (by simpa using hseps)]

/-- What is on the stack are tokens of the text, each there once. -/
theorem stack_mem_nodup (t : Text) :
    (∀ x ∈ (parse (P.tokenize t)).stack, x ∈ P.tokenize t) ∧ (parse (P.tokenize t)).stack.Nodup := by
  have hn : (P.tokenize t).Nodup := (P.dialect.tokenize_laid t).nodup
  constructor
  · intro x hx
    exact mem_of_mem_stack hx
  · have hopeners : ([] ++ (parse (P.tokenize t)).openers).Nodup :=
      Parse.nodup_foldl Parse.openers_read (by simpa [Parse.openers] using hn)
    rw [List.nil_append] at hopeners
    exact (List.nodup_append.1 hopeners).1

/-- Different tokens open different constructs. -/
theorem eq_of_construct_eq {x y : Token} (hx : x ∈ P.tokenize t) (hy : y ∈ P.tokenize t)
    (h : x.construct = y.construct) : x = y := by
  have hlaid := P.dialect.tokenize_laid t
  have hstart : x.start = y.start := congrArg OpenConstruct.start h
  have hxin : x.start ≤ y.start ∧ y.start < x.stop := ⟨by omega, hstart ▸ (hlaid.bounds hx).2.1⟩
  have hyin : y.start ≤ y.start ∧ y.start < y.stop := ⟨Nat.le_refl _, (hlaid.bounds hy).2.1⟩
  exact hlaid.eq_of_mem hx hy hxin hyin

/-- A closer behind a cleanly nested script takes the innermost open construct if that accepts it;
    otherwise that construct stays the innermost open one. -/
theorem allUnclosedIn_pending {ts below : List Token} (hclean : P.CleanlyNested ts)
    (hstack : (parse ts).stack = o :: below) (c : Token) :
    (P.accepts o c → P.allUnclosedIn { pending := [c] } [] ts.reverse = below.reverse) ∧
      (¬P.accepts o c → (P.allUnclosedIn { pending := [c] } [] ts.reverse).getLast? = some o) := by
  rw [← List.reverse_reverse ts] at hclean hstack
  constructor
  · intro hacc
    have hall := allUnclosedIn_eq hclean (show _ = [o] ++ below from hstack) (.cons hacc .nil) none []
    rwa [List.append_nil] at hall
  · intro hacc
    have hwaits : ∀ x, (o :: below).head? = some x → popFirst (P.accepts x) [c] = none := by
      intro x hx
      obtain rfl := Option.some.inj hx
      exact popFirst_cons_of_neg hacc []
    have hfirst := unclosedIn_eq hclean (show _ = [] ++ o :: below from hstack) .nil hwaits none
    rw [getLast?_allUnclosedIn]
    exact hfirst

/-- **The closing text closes the innermost open construct, with three exceptions.**  In a cleanly nested
    script where `#` opens comments, without a bound on the searches: with the closing text on a line
    of its own the innermost construct is open no more, and all others are; unless it is a `for` that no
    variable follows, a `begin` without a name, or a `begin` whose name spells `if` or `sub`.  Those stay
    the innermost open construct. -/
theorem closingText_closes_innermost (P : Profile) (t closing : Text) (hd : P.dialect.marker = ['#'])
    (hlimit : P.layout.maxVisits = 0) (hclean : P.CleanlyNested (P.tokenize t))
    (hok : P.closingText (Buffer.ofText t) t.size = .ok closing) :
    let t' := appendLine t closing
    let context := P.context (Buffer.ofText t) t.size
    let context' := P.context (Buffer.ofText t') t'.size
    ∃ o ∈ P.tokenize t, context.getLast? = some o.construct ∧
      (context' = context.dropLast ↔ ¬P.Unclosable t o) ∧
      (P.Unclosable t o → context'.getLast? = some o.construct) := by
  obtain ⟨o, below, k, name, hstack, hclosed, rfl⟩ := exists_closedBy hlimit hclean hok
  intro t' context context'
  obtain ⟨hmem, hnodup⟩ := stack_mem_nodup (P := P) t
  rw [hstack] at hmem hnodup
  have ho : o ∈ P.tokenize t := hmem o (List.mem_cons_self ..)
  have hcontext : context = below.reverse.map Token.construct ++ [o.construct] := by
    show P.context (Buffer.ofText t) t.size = _
    rw [context_size hlimit, allUnclosedIn_eq_stack (by rwa [List.append_nil]), hstack]
    simp
  obtain ⟨p, hcontext'⟩ :=
    context_appendLine hd hlimit hclosed.isClosing (fun w hw => hclosed.isWord hd ho hw) t
  have hacc := hclosed.accepts_iff p
  obtain ⟨hcloses, hstays⟩ := allUnclosedIn_pending hclean hstack (closerAt p k name)
  have hlast : P.Unclosable t o → context'.getLast? = some o.construct := by
    intro hexc
    show (P.context (Buffer.ofText t') t'.size).getLast? = _
    rw [hcontext', List.getLast?_map, hstays fun h => hacc.1 h hexc]
    rfl
  refine ⟨o, ho, by simp [hcontext], ⟨fun heq hexc => ?_, fun hclosable => ?_⟩, hlast⟩
  · -- the construct would be open twice
    have hin : o.construct ∈ below.reverse.map Token.construct := by
      rw [hcontext, List.dropLast_concat] at heq
      exact List.mem_of_getLast? (heq ▸ hlast hexc)
    obtain ⟨x, hx, hsame⟩ := List.mem_map.1 hin
    rw [List.mem_reverse] at hx
    have hxo : x = o := eq_of_construct_eq (hmem x (List.mem_cons_of_mem _ hx)) ho hsame
    rw [hxo] at hx
    exact (List.nodup_cons.1 hnodup).1 hx
  · show P.context (Buffer.ofText t') t'.size = _
    rw [hcontext', hcloses (hacc.2 hclosable), hcontext, List.dropLast_concat]

/-- A `for` with its variable is closed by `next i`; without one, `next` closes the loop around it. -/
theorem closingText_closes_innermost_for :
    let P : Profile := { layout := { maxVisits := 0 } }
    let t : Text := "gsave\nbegin box # a\nfor i = 1 to 2".toList
    let u : Text := "while x\nfor\n".toList
    let t' := appendLine t "next i".toList
    let u' := appendLine u "next".toList
    (P.CleanlyNested (P.tokenize t) ∧ P.CleanlyNested (P.tokenize u)) ∧
      P.closingText (Buffer.ofText t) t.size = .ok "next i".toList ∧
      P.context (Buffer.ofText t') t'.size = (P.context (Buffer.ofText t) t.size).dropLast ∧
      P.closingText (Buffer.ofText u) u.size = .ok "next".toList ∧
      (P.context (Buffer.ofText u') u'.size).getLast? = some ⟨.forLoop, 8⟩ := by
  intro P t u t' u'
  -- one evaluation for all facts, as each one works out the table of blocks
  have hrun : (P.CleanlyNested (P.tokenize t) ∧ P.CleanlyNested (P.tokenize u)) ∧
      P.closingText (Buffer.ofText t) t.size = .ok "next i".toList ∧
      P.closingText (Buffer.ofText u) u.size = .ok "next".toList ∧
      (P.context (Buffer.ofText t) t.size).getLast? = some ⟨.forLoop, 20⟩ ∧
      (P.context (Buffer.ofText u) u.size).getLast? = some ⟨.forLoop, 8⟩ ∧
      (∀ x ∈ P.tokenize t, x.construct = ⟨.forLoop, 20⟩ → (P.dialect.tokenAfter t x.stop).kind = .var) ∧
      (∀ x ∈ P.tokenize u, x.construct = ⟨.forLoop, 8⟩ → (P.dialect.tokenAfter u x.stop).kind ≠ .var) := by
    decide +kernel
  obtain ⟨⟨hclean, hclean'⟩, hok, hok', hlast, hlast', hvar, hvar'⟩ := hrun
  obtain ⟨o, ho, hinner, hcloses, -⟩ := closingText_closes_innermost P t _ rfl rfl hclean hok
  obtain ⟨o', ho', hinner', -, hstays⟩ := closingText_closes_innermost P u _ rfl rfl hclean' hok'
  have hfor : o.construct = ⟨.forLoop, 20⟩ := Option.some.inj (hinner.symm.trans hlast)
  have hfor' : o'.construct = ⟨.forLoop, 8⟩ := Option.some.inj (hinner'.symm.trans hlast')
  have hkind : o.kind = .forLoop := congrArg OpenConstruct.kind hfor
  have hkind' : o'.kind = .forLoop := congrArg OpenConstruct.kind hfor'
  have hclosable : ¬P.Unclosable t o := by
    rintro (⟨-, hnext⟩ | ⟨hk⟩ | ⟨-, hk⟩)
    · exact hnext (hvar o ho hfor)
    · cases hkind.symm.trans hk
    · cases hkind.symm.trans hk
  exact ⟨⟨hclean, hclean'⟩, hok, hcloses.2 hclosable, hok',
    hfor' ▸ hstays (.noVar hkind' (hvar' o' ho' hfor'))⟩

end Profile

end BlockScript
