/-
  Commands that can serve as a linter.

  A handful of commands is known: `cat`, `echo`, `printf`, `sleep`, `true`, `false`, and `sh -c` with
  a script of such commands.  A script joins simple commands by `;`, line breaks, `&&`, `||` and `|`,
  quotes words, and sends output to the other stream or nowhere.  Running a command is a function of
  its input and of the folder it runs in.
-/
import BlockScript.Folder
import BlockScript.Lint.Session

namespace BlockScript

namespace Shell

/-! ## Words of a script -/

/-- What a script is made of. -/
inductive Lex where
  | word (t : Text)
  /-- `;`, `&`, `|` or a line break -/
  | joint (c : Char)
  /-- `<` or `>`, with the number of the stream it redirects -/
  | redirect (stream : Nat)
  deriving DecidableEq, Repr

/-- How the next character of a script is read. -/
inductive Quoting where
  | plain
  | single
  | double
  | escaped
  | doubleEscaped
  | comment
  deriving DecidableEq, Repr

/-- The word that is being read (last character first), if one is. -/
def wordOf : Option Text → List Lex
  | none => []
  | some w => [.word w.reverse]

/-- The stream that `<` or `>` redirects when it follows the word being read. -/
def streamOf (c : Char) : Option Text → Nat × List Lex
  | some ['0'] => (0, [])
  | some ['1'] => (1, [])
  | some ['2'] => (2, [])
  | word => (if c = '<' then 0 else 1, wordOf word)

/-- The words and marks of a script; `word` is the word being read. -/
def lex (word : Option Text) : Quoting → Text → List Lex
  | _, [] => wordOf word
  | .plain, c :: t =>
    if c = ' ' || c = '\t' then wordOf word ++ lex none .plain t
    else if c = '\n' || c = ';' || c = '&' || c = '|' then
      wordOf word ++ .joint c :: lex none .plain t
    else if c = '<' || c = '>' then
      let (stream, before) := streamOf c word
      before ++ .redirect stream :: lex none .plain t
    else if c = '\'' then lex (some (word.getD [])) .single t
    else if c = '"' then lex (some (word.getD [])) .double t
    else if c = '\\' then lex word .escaped t
    else if c = '#' && word.isNone then lex none .comment t
    else lex (some (c :: word.getD [])) .plain t
  | .single, c :: t =>
    if c = '\'' then lex word .plain t else lex (some (c :: word.getD [])) .single t
  | .double, c :: t =>
    if c = '"' then lex word .plain t
    else if c = '\\' then lex word .doubleEscaped t
    else lex (some (c :: word.getD [])) .double t
  | .escaped, c :: t =>
    if c = '\n' then lex word .plain t else lex (some (c :: word.getD [])) .plain t
  | .doubleEscaped, c :: t =>
    if c = '\n' then lex word .double t
    else if c = '"' || c = '\\' || c = '$' || c = '`' then lex (some (c :: word.getD [])) .double t
    else lex (some (c :: '\\' :: word.getD [])) .double t
  | .comment, c :: t =>
    if c = '\n' then .joint c :: lex none .plain t else lex none .comment t

/-! ## Commands of a script -/

/-- Where output goes. -/
inductive Sink where
  | out
  | err
  | nowhere
  deriving DecidableEq, Repr

/-- A command with its words and redirections. -/
structure Simple where
  words : List Text := []
  out : Sink := .out
  err : Sink := .err
  /-- whether it reads nothing -/
  noInput : Bool := false
  deriving DecidableEq, Repr

/-- How a command hangs on the one before it. -/
inductive Joint where
  | next
  | both
  | either
  | pipe
  deriving DecidableEq, Repr

/-- A redirection whose target is still to come. -/
inductive Pending where
  | file (stream : Nat)
  | copy (stream : Nat)
  deriving DecidableEq, Repr

/-- The commands read so far, and the one being read. -/
structure Reading where
  done : List (Joint × Simple) := []
  joint : Joint := .next
  current : Simple := {}
  pending : Option Pending := none
  deriving DecidableEq, Repr

namespace Simple

/-- Sends a stream somewhere else. -/
def redirect (s : Simple) (stream : Nat) (sink : Sink) : Simple :=
  if stream = 0 then { s with noInput := true }
  else if stream = 2 then { s with err := sink }
  else { s with out := sink }

/-- Where the stream of the given number goes. -/
def sinkOf (s : Simple) (stream : Text) : Sink :=
  if stream = ['1'] then s.out else if stream = ['2'] then s.err else .nowhere

end Simple

namespace Reading

/-- Ends the command being read; the next hangs on it as `joint` says. -/
def close (r : Reading) (joint : Joint) : Reading :=
  if r.current.words.isEmpty then { r with joint := joint, current := {}, pending := none }
  else { done := r.done ++ [(r.joint, r.current)], joint := joint }

/-- Reads one word or mark. -/
def step (r : Reading) : Lex → Reading
  | .word w =>
    match r.pending with
    | none => { r with current := { r.current with words := r.current.words ++ [w] } }
    | some (.file stream) => { r with current := r.current.redirect stream .nowhere, pending := none }
    | some (.copy stream) =>
      { r with current := r.current.redirect stream (r.current.sinkOf w), pending := none }
  | .redirect stream => { r with pending := some (.file stream) }
  | .joint '&' =>
    match r.pending with
    | some (.file stream) => { r with pending := some (.copy stream) }
    | _ => r.close .both
  | .joint '|' => r.close (if r.current.words.isEmpty && r.joint = .pipe then .either else .pipe)
  | .joint _ => r.close .next

end Reading

/-- The commands of a script. -/
def commandsOf (script : Text) : List (Joint × Simple) :=
  (((lex none .plain script).foldl Reading.step {}).close .next).done

/-! ## What a command does -/

/-- What running one command comes to. -/
structure Effect where
  out : Bytes := []
  err : Bytes := []
  /-- the input it leaves -/
  input : Bytes := []
  status : Nat := 0
  duration : Nat := 0
  exits : Bool := false
  deriving DecidableEq, Repr

/-- The number written in base `b` by leading digits, at most `n` of them, and the rest. -/
def digits (b : Nat) : Nat → Nat → Text → Nat × Text
  | 0, value, t => (value, t)
  | _ + 1, value, [] => (value, [])
  | n + 1, value, c :: t =>
    if '0' ≤ c && c.toNat < '0'.toNat + b then digits b n (value * b + (c.toNat - '0'.toNat)) t
    else (value, c :: t)

theorem length_digits (b n value : Nat) (t : Text) : (digits b n value t).2.length ≤ t.length := by
  fun_induction digits b n value t with
  | case1 | case2 => simp
  | case3 value n c t _ ih => exact Nat.le_succ_of_le ih
  | case4 => simp

/-- The character that a letter after a backslash stands for. -/
def escapeOf? (c : Char) : Option Nat :=
  match c with
  | 'a' => some 7
  | 'b' => some 8
  | 'f' => some 12
  | 'n' => some 10
  | 'r' => some 13
  | 't' => some 9
  | 'v' => some 11
  | '\\' => some 92
  | _ => none

/-- The bytes of a text whose backslash sequences are carried out; `\c` ends the output, and an octal
    number has a leading zero if `zero` is set. -/
def unescape (zero : Bool) : Text → Bytes × Bool
  | [] => ([], false)
  | '\\' :: c :: t =>
    if c = 'c' then ([], true)
    else
      match escapeOf? c with
      | some n =>
        let (rest, ended) := unescape zero t
        (UInt8.ofNat n :: rest, ended)
      | none =>
        if zero && c = '0' then
          let (rest, ended) := unescape zero (digits 8 3 0 t).2
          (UInt8.ofNat (digits 8 3 0 t).1 :: rest, ended)
        else if !zero && '0' ≤ c && c ≤ '7' then
          let (rest, ended) := unescape zero (digits 8 2 (c.toNat - '0'.toNat) t).2
          (UInt8.ofNat (digits 8 2 (c.toNat - '0'.toNat) t).1 :: rest, ended)
        else
          let (rest, ended) := unescape zero t
          (Text.toBytes ['\\', c] ++ rest, ended)
  | c :: t =>
    let (rest, ended) := unescape zero t
    (Text.toBytes [c] ++ rest, ended)
termination_by t => t.length
decreasing_by
  · simp only [List.length_cons]; omega
  · have := length_digits 8 3 0 t
    simp only [List.length_cons]; omega
  · have := length_digits 8 2 (c.toNat - '0'.toNat) t
    simp only [List.length_cons]; omega
  · simp only [List.length_cons]; omega
  · simp

/-- The words with blanks between them. -/
def joined (words : List Text) : Text := List.intercalate [' '] words

/-- What `echo` writes. -/
def echo (escapes : Bool) (args : List Text) : Bytes :=
  let (args, newline) := if args.head? = some "-n".toList then (args.drop 1, false) else (args, true)
  let line := joined args ++ (if newline then ['\n'] else [])
  if escapes then (unescape true line).1 else Text.toBytes line

/-- What one pass over a format writes, and the arguments it leaves. -/
def format : Text → List Text → Bytes × List Text
  | [], args => ([], args)
  | ['%'], args => (Text.toBytes ['%'], args)
  | '%' :: c :: t, args =>
    if c = '%' then
      let (rest, left) := format t args
      (Text.toBytes ['%'] ++ rest, left)
    else
      let arg := args.headD (if c = 's' || c = 'b' then [] else ['0'])
      let (rest, left) := format t (args.drop 1)
      ((if c = 'b' then (unescape true arg).1 else Text.toBytes arg) ++ rest, left)
  | c :: t, args =>
    let (rest, left) := format t args
    (Text.toBytes [c] ++ rest, left)

/-- What the passes over a format write: the format is used again while arguments are left. -/
def passes (form : Text) : Nat → List Text → Bytes
  | 0, _ => []
  | n + 1, args =>
    let (written, left) := format form args
    if left.isEmpty || left.length = args.length then written else written ++ passes form n left

/-- What `printf` writes. -/
def printf (args : List Text) : Bytes :=
  match args with
  | [] => []
  | form :: args =>
    -- the escapes of the format are characters of it, so they are carried out first
    passes (Text.ofBytesLossy (unescape false form).1) (args.length + 1) args

/-- The milliseconds of a duration such as `5`, `0.25` or `2m`; `none` if it is none. -/
def millisOf? (t : Text) : Option Nat :=
  let (whole, rest) := digits 10 t.length 0 t
  let (thousandths, rest) :=
    match rest with
    | '.' :: fraction =>
      let kept := ((fraction.takeWhile Char.isDigit) ++ ['0', '0', '0']).take 3
      ((digits 10 3 0 kept).1, fraction.dropWhile Char.isDigit)
    | rest => (0, rest)
  let ms := whole * 1000 + thousandths
  match rest with
  | [] => if t.isEmpty then none else some ms
  | ['s'] => some ms
  | ['m'] => some (ms * 60)
  | ['h'] => some (ms * 3600)
  | ['d'] => some (ms * 86400)
  | _ => none

/-- What `cat` does with its arguments: files by their paths, `-` for the input. -/
def cat (folder : Folder) (input : Bytes) : List Text → Effect
  | [] => { input := input }
  | arg :: args =>
    if arg = ['-'] then
      let e := cat folder [] args
      { e with out := input ++ e.out }
    else
      let e := cat folder input args
      match folder.read arg with
      | .ok content => { e with out := content ++ e.out }
      | .error error =>
        let reason := String.ofList ((error.message.toList.splitOn '(').headD [])
        let line := "cat: " ++ String.ofList arg ++ ": " ++ reason.trimAsciiEnd.toString ++ "\n"
        { e with err := Text.toBytes line.toList ++ e.err, status := 1 }

/-- What a command other than `sh` does; `none` if it is not known.  In a script `inScript` is set:
    there `echo` carries out backslash sequences, and `exit` and `:` are known. -/
def simple? (inScript : Bool) (folder : Folder) (input : Bytes) (name : String) (args : List Text) :
    Option Effect :=
  match name with
  | "cat" => some (cat folder input (if args.isEmpty then [['-']] else args))
  | "echo" => some { out := echo inScript args, input := input }
  | "printf" =>
    match args with
    | ('-' :: '-' :: []) :: args => some { out := printf args, input := input }
    | ('-' :: c :: _) :: _ =>
      -- in a script the format may not look like an option
      if inScript then
        let line := "sh: 1: printf: Illegal option -" ++ c.toString ++ "\n"
        some { err := Text.toBytes line.toList, status := 2, input := input }
      else some { out := printf args, input := input }
    | args => some { out := printf args, input := input }
  | "true" => some { input := input }
  | "false" => some { input := input, status := 1 }
  | "sleep" =>
    match args.mapM millisOf? with
    | some durations => some { duration := durations.foldl (· + ·) 0, input := input }
    | none => some { status := 1, input := input }
  | ":" => if inScript then some { input := input } else none
  | "exit" =>
    if inScript then
      some { status := (digits 10 10 0 (args.headD [])).1, exits := true, input := input }
    else none
  | _ => none

/-! ## Running a script -/

/-- How far a script has run. -/
structure State where
  input : Bytes
  out : Bytes := []
  err : Bytes := []
  /-- what the command before a `|` wrote -/
  piped : Bytes := []
  status : Nat := 0
  duration : Nat := 0
  exited : Bool := false
  deriving DecidableEq, Repr

/-- Whether a command runs that hangs on the one before as `joint` says. -/
def State.runs (s : State) (joint : Joint) : Bool :=
  !s.exited &&
    match joint with
    | .both => s.status = 0
    | .either => s.status ≠ 0
    | _ => true

/-- Adds what a command writes to one stream. -/
def State.put (s : State) (captured : Bool) (sink : Sink) (bytes : Bytes) : State :=
  match sink with
  | .nowhere => s
  | .err => { s with err := s.err ++ bytes }
  | .out => if captured then { s with piped := s.piped ++ bytes } else { s with out := s.out ++ bytes }

/-- Runs one command; `captured` says that its output goes to the next. -/
def State.step (folder : Folder) (s : State) (joint : Joint) (c : Simple) (captured : Bool) : State :=
  if s.runs joint then
    let input := if c.noInput then [] else if joint = Joint.pipe then s.piped else s.input
    let name := String.ofList (c.words.headD [])
    let missing : Effect :=
      { err := Text.toBytes ("sh: 1: " ++ name ++ ": not found\n").toList, status := 127, input := input }
    let e := (simple? true folder input name (c.words.drop 1)).getD missing
    let s := { s with
      piped := []
      input := if c.noInput || joint = Joint.pipe then s.input else e.input
      status := e.status
      duration := s.duration + e.duration
      exited := e.exits && !captured && joint ≠ Joint.pipe }
    (s.put captured c.out e.out).put captured c.err e.err
  else s

/-- Runs the commands in turn. -/
def State.run (folder : Folder) (s : State) : List (Joint × Simple) → State
  | [] => s
  | (joint, c) :: rest => State.run folder (s.step folder joint c (rest.head?.map (·.1) = some .pipe)) rest

/-- What a script does with an input. -/
def run (folder : Folder) (script : Text) (input : Bytes) : LinterRun :=
  let s := State.run folder { input := input } (commandsOf script)
  { duration := some s.duration, out := s.out, err := s.err }

/-! ## Programs -/

/-- The programs that can be started. -/
def programs : List String := ["sh", "cat", "echo", "printf", "sleep", "true", "false"]

/-- The name of a program without the system's folders of programs. -/
def programName (program : String) : String :=
  let parts := Folder.partsOf program.toList
  let folders := ["/bin", "/usr/bin"].map fun folder => Folder.partsOf folder.toList
  if folders.contains parts.dropLast then String.ofList (parts.getLast?.getD []) else program

/-- Why a program cannot be started, if it cannot. -/
def refusal (folder : Folder) (program : String) (args : List Text) : Option StartRefusal :=
  if program.contains '\x00' || args.any (·.contains '\x00') then
    some (.denied "nul byte found in provided data")
  else if programs.contains (programName program) then none
  else if program.contains '/' || program = "." || program = ".." then
    match folder.place program.toList with
    | .missing => some .notFound
    | .belowFile => some (.denied FileError.belowFile.message)
    | _ => some (.denied "Permission denied (os error 13)")
  else some .notFound

/-- What a program does with an input. -/
def start (folder : Folder) (program : String) (args : List Text) (input : Bytes) : LinterRun :=
  match programName program, args with
  | "sh", flag :: script :: _ => if flag = "-c".toList then run folder script input else {}
  | "sh", [] => run folder (Text.ofBytesLossy input) []
  | name, args =>
    match simple? false folder input name args with
    | some e => { duration := some e.duration, out := e.out, err := e.err }
    | none => {}

end Shell

/-- The linter that a program with arguments is, in a folder. -/
def Linter.ofProgram (folder : Folder) (program : String) (args : List Text) (limit : Option Nat) :
    Linter where
  program := program
  refusal := Shell.refusal folder program args
  run t := Shell.start folder program args (Text.toBytes t)
  limit := limit

end BlockScript
