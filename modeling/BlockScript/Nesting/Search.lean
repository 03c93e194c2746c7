/-
  Searching for the partner of a keyword.

  A search backward keeps the closers it met that wait for their opener, the latest on top.  An opener
  takes the topmost closer it accepts, and closers above that one are strays and are dropped; an opener
  that accepts none is unclosed.  A search forward does the same with openers.  All of them go token by
  token with one scanner, so they share its budget; whatever lies beyond it is not there.

  The `if` of an `else if ... then` line that ends in a block does not open a construct: the line
  continues the block `if` above it.  An `else` that continues a chain of single-line conditions
  belongs to no block.
-/
import BlockScript.Nesting.Profile

namespace BlockScript

/-- Takes the topmost element that satisfies `p`, and drops those above it. -/
def popFirst (p : Token → Bool) : List Token → Option (Token × List Token)
  | [] => none
  | t :: ts => if p t then some (t, ts) else popFirst p ts

/-- The state of a search backward: the closers that wait, and the first pair met whose names
    differ. -/
structure Walk where
  pending : List Token := []
  mismatch : Option (Token × Token) := none
  deriving DecidableEq, Repr

namespace Profile

variable (P : Profile) (b : Buffer)

/-! ## Roles in context -/

/-- Whether `t` is the `else` or the `if` of an `else if ... then` line that ends in a block. -/
def continuesIf (s : Scanner) (t : Token) : Bool × Scanner :=
  match t.kind with
  | .ifBlock =>
    let (before, s) := s.prev P.dialect b t.start
    (before.kind = .elseLine, s)
  | .elseLine =>
    let (after, s) := s.next P.dialect b t.stop
    (after.kind = .ifBlock, s)
  | _ => (false, s)

/-- The role of a token, told apart from an `if` that continues one. -/
def roleInContext (s : Scanner) (t : Token) : Role × Scanner :=
  if t.kind = .ifBlock then
    let (continues, s) := P.continuesIf b s t
    (if continues then .inner else t.kind.role, s)
  else (t.kind.role, s)

/-- The token before offset `p`, separators skipped, and the offset where it starts. -/
def skipSeparators (s : Scanner) (p : Nat) : Token × Scanner :=
  match _h : s.prev P.dialect b p with
  | (t, s') => if t.kind = .separator then skipSeparators s' t.start else (t, s')
termination_by p
decreasing_by
  have := s.start_lt_of_prev P.dialect b p
  simp_all

/-- The first token of the statement that `first` ends. -/
def statementStart (s : Scanner) (first : Token) (p : Nat) : Token × Scanner :=
  match _h : s.prev P.dialect b p with
  | (t, s') =>
    if t.kind = .edge ∨ t.kind = .separator then (first, s') else statementStart s' t t.start
termination_by p
decreasing_by
  have := s.start_lt_of_prev P.dialect b p
  simp_all

/-- Whether the `else` continues a chain of single-line `if` and `else if` statements. -/
def isFlatElse (s : Scanner) (els : Token) : Bool × Scanner :=
  let (t, s) := P.skipSeparators b s els.start
  if t.kind = .edge then (false, s)
  else
    let (first, s) := P.statementStart b s t t.start
    match first.kind with
    | .ifLine => (true, s)
    | .elseLine =>
      let (continues, s) := P.continuesIf b s first
      (!continues, s)
    | _ => (false, s)

/-! ## Backward -/

/-- The search after a token in the given role, and whether that token is an unclosed opener. -/
def meet (w : Walk) (role : Role) (t : Token) : Walk × Bool :=
  match role with
  | .closer => ({ w with pending := t :: w.pending }, false)
  | .opener =>
    match popFirst (P.accepts t) w.pending with
    | none => (w, true)
    | some (closer, rest) =>
      let here := if P.namesDiffer t closer then some (t, closer) else none
      (⟨rest, w.mismatch <|> here⟩, false)
  | _ => (w, false)

/-- The nearest opener before offset `p` that no closer in between closes, with the search's state
    when it is met. -/
def unclosedBefore (s : Scanner) (w : Walk) (p : Nat) : Option Token × Walk × Scanner :=
  match _h : s.prev P.dialect b p with
  | (t, s') =>
    if t.kind = .edge then (none, w, s')
    else
      let (role, s'') := P.roleInContext b s' t
      let (w', unclosed) := P.meet w role t
      if unclosed then (some t, w', s'') else unclosedBefore s'' w' t.start
termination_by p
decreasing_by
  have := s.start_lt_of_prev P.dialect b p
  simp_all

/-- All unclosed openers before offset `p`, outermost first, before those in `inner`. -/
def allUnclosedBefore (s : Scanner) (w : Walk) (p : Nat) (inner : List Token) : List Token :=
  match _h : s.prev P.dialect b p with
  | (t, s') =>
    if t.kind = .edge then inner
    else
      let (role, s'') := P.roleInContext b s' t
      let (w', unclosed) := P.meet w role t
      allUnclosedBefore s'' w' t.start (if unclosed then t :: inner else inner)
termination_by p
decreasing_by
  have := s.start_lt_of_prev P.dialect b p
  simp_all

/-- The opener before offset `p` that takes the bottom of the waiting closers. -/
def openerBefore (s : Scanner) (w : Walk) (p : Nat) : Option Token × Scanner :=
  match _h : s.prev P.dialect b p with
  | (t, s') =>
    if t.kind = .edge then (none, s')
    else
      let (role, s'') := P.roleInContext b s' t
      let (w', _) := P.meet w role t
      if w'.pending.isEmpty then (some t, s'') else openerBefore s'' w' t.start
termination_by p
decreasing_by
  have := s.start_lt_of_prev P.dialect b p
  simp_all

/-- The opener of the construct that `closer` closes or continues. -/
def openerOf (s : Scanner) (closer : Token) : Option Token × Scanner :=
  P.openerBefore b s { pending := [closer] } closer.start

/-! ## Forward -/

/-- The closer after offset `p` that takes the bottom of the open openers `pending`. -/
def closerAfter (s : Scanner) (pending : List Token) (p : Nat) : Option Token × Scanner :=
  match _h : s.next P.dialect b p with
  | (t, s') =>
    if t.kind = .edge then (none, s')
    else
      let (role, s'') := P.roleInContext b s' t
      match role with
      | .opener => closerAfter s'' (t :: pending) t.stop
      | .closer =>
        match popFirst (P.accepts · t) pending with
        | some (_, []) => (some t, s'')
        | some (_, rest) => closerAfter s'' rest t.stop
        | none => closerAfter s'' pending t.stop
      | _ => closerAfter s'' pending t.stop
termination_by b.size - p
decreasing_by
  all_goals
    have := s.lt_stop_of_next P.dialect b p
    simp_all
    omega

/-- The closer of the construct that `opener` opens. -/
def closerOf (s : Scanner) (opener : Token) : Option Token × Scanner :=
  P.closerAfter b s [opener] opener.stop

end Profile

end BlockScript
