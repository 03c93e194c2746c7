/-
  Checking one text again and again with a linter.

  Every start of a check opens a new generation and supersedes the check before it, also when the
  linter cannot be started.  A check is superseded through a signal that the session keeps for the
  latest one: the signal fires when it is used or given up, which a start, a cancellation and the
  acceptance of the current generation's findings do.  A superseded check says so when it is waited
  for, unless its linter has ended by then and that is seen first.  Findings are accepted from the
  current generation only.
-/
import BlockScript.Lint.Diagnostic
import BlockScript.Text.Utf8

namespace BlockScript

/-! ## Linters -/

/-- What a linter does with one input: the milliseconds it takes (`none` if it never ends), and what
    it writes. -/
structure LinterRun where
  duration : Option Nat := some 0
  out : Bytes := []
  err : Bytes := []

/-- Why a program cannot be started. -/
inductive StartRefusal where
  | notFound
  /-- the system's reason -/
  | denied (reason : String)
  deriving DecidableEq, Repr

/-- A linter: its program, how starting it fails if it does, what it does with an input, and how many
    milliseconds it is given. -/
structure Linter where
  program : String
  refusal : Option StartRefusal := none
  run : Text → LinterRun := fun _ => {}
  limit : Option Nat := none

/-- Why a check came to nothing. -/
inductive CheckError where
  | missing (program : String)
  | refused (program reason : String)
  /-- the limit in milliseconds -/
  | timedOut (limit : Nat)
  deriving DecidableEq, Repr

/-- A number of milliseconds as a duration in the largest unit that it fills. -/
def showMillis (ms : Nat) : String :=
  if ms = 0 then "0ns"
  else if ms < 1000 then toString ms ++ "ms"
  else
    let digits := (toString (1000 + ms % 1000)).toList.drop 1
    let fraction := Text.trimEnd (· = '0') digits
    toString (ms / 1000) ++ (if fraction.isEmpty then "" else "." ++ String.ofList fraction) ++ "s"

namespace CheckError

/-- The error in words. -/
def message : CheckError → String
  | .missing program => "linter `" ++ program ++ "` was not found"
  | .refused program _ => "failed to start linter `" ++ program ++ "`"
  | .timedOut limit => "linter did not finish within " ++ showMillis limit

/-- What is behind the error. -/
def cause? : CheckError → Option String
  | .refused _ reason => some reason
  | _ => none

end CheckError

namespace Linter

/-- Whether the linter ends within its limit when it takes the given time. -/
def inTime (l : Linter) (duration : Option Nat) : Bool :=
  match l.limit, duration with
  | _, none => false
  | none, some _ => true
  | some limit, some ms => ms < limit || ms = 0

/-- The findings of the linter about a text, or the limit it passed; `none` if it never ends. -/
def check (l : Linter) (t : Text) : Option (Except CheckError (List Diagnostic)) :=
  let run := l.run t
  if l.inTime run.duration then
    let report := Report.join (Text.ofBytesLossy run.out) (Text.ofBytesLossy run.err)
    some (.ok (Diagnostic.ofRecords t (Report.parse report)))
  else l.limit.map fun limit => .error (.timedOut limit)

/-- The error of starting the linter, if it cannot be started. -/
def startError? (l : Linter) : Option CheckError :=
  l.refusal.map fun
    | .notFound => .missing l.program
    | .denied reason => .refused l.program reason

end Linter

/-! ## Sessions -/

/-- How a check ended. -/
inductive Outcome where
  | finished (generation : Nat) (diagnostics : List Diagnostic)
  | superseded (generation : Nat)
  deriving DecidableEq, Repr

/-- Where a check stands. -/
inductive CheckState where
  | pending
  | ended (outcome : Outcome)
  /-- dropped, or ended with an error -/
  | gone
  deriving DecidableEq, Repr

/-- A check that was started: its generation, its text, and whether its signal has fired. -/
structure Check where
  generation : Nat
  input : Text
  signalled : Bool := false
  state : CheckState := .pending
  deriving DecidableEq, Repr

/-- The checks of one text in the order they were started.  `live` is the number of the check whose
    signal the session keeps. -/
structure Session where
  generation : Nat := 0
  live : Option Nat := none
  checks : List Check := []
  deriving DecidableEq, Repr

namespace Session

/-- Fires the signal the session keeps, and gives it up. -/
def cancel (s : Session) : Session :=
  match s.live with
  | none => s
  | some i =>
    { s with live := none, checks := s.checks.modify i fun c => { c with signalled := true } }

/-- Starts a check of a text: the new check's number, or why the linter cannot be started. -/
def start (s : Session) (l : Linter) (t : Text) : Except CheckError Nat × Session :=
  let s := { s.cancel with generation := s.generation + 1 }
  match l.startError? with
  | some e => (.error e, s)
  | none =>
    (.ok s.checks.length,
      { s with live := some s.checks.length, checks := s.checks ++ [⟨s.generation, t, false, .pending⟩] })

/-- What waiting for a check gives. -/
inductive Waited where
  | outcome (o : Outcome)
  | failed (e : CheckError)
  /-- the linter never ends -/
  | forever
  /-- there is no such pending check -/
  | noCheck
  deriving DecidableEq, Repr

/-- The session with check `i` in another state. -/
def setState (s : Session) (i : Nat) (state : CheckState) : Session :=
  { s with checks := s.checks.modify i fun c => { c with state := state } }

/-- Waits for check `i`.  Where its signal has fired and its linter has ended as well, only one of the two
    is seen: the linter's end if `linterFirst`, else the signal. -/
def wait (s : Session) (l : Linter) (i : Nat) (linterFirst : Bool := false) : Waited × Session :=
  match s.checks[i]? with
  | none => (.noCheck, s)
  | some c =>
    if c.state ≠ .pending then (.noCheck, s)
    else
      match if c.signalled && !linterFirst then none else l.check c.input with
      | some (.ok ds) =>
        (.outcome (.finished c.generation ds), s.setState i (.ended (.finished c.generation ds)))
      | some (.error e) => (.failed e, s.setState i .gone)
      | none =>
        if c.signalled then
          (.outcome (.superseded c.generation), s.setState i (.ended (.superseded c.generation)))
        else (.forever, s)

/-- Drops check `i`, and says whether it was pending. -/
def drop (s : Session) (i : Nat) : Bool × Session :=
  match s.checks[i]? with
  | none => (false, s)
  | some c => if c.state = .pending then (true, s.setState i .gone) else (false, s)

/-- The findings of an outcome if it belongs to the current generation. -/
def accept (s : Session) (o : Outcome) : Option (List Diagnostic) × Session :=
  match o with
  | .finished generation ds => if generation = s.generation then (some ds, s.cancel) else (none, s)
  | .superseded _ => (none, s)

/-- The outcome of check `i`, if it was waited for. -/
def outcome? (s : Session) (i : Nat) : Option Outcome :=
  match s.checks[i]? with
  | some ⟨_, _, _, .ended o⟩ => some o
  | _ => none

end Session

end BlockScript
