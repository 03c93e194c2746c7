/-
  The arguments of the command line.

  A command has its options, each at most once, and the file it works on.  An option's value stands
  in the next argument, after `=`, or after the letter of a short option.  An argument that starts
  with a dash is an option unless it is the dash alone or follows `--`.
-/
import BlockScript.Command.Position
import BlockScript.Settings.Coercion

namespace BlockScript

/-- How answers are written. -/
inductive Format where
  | text
  | json
  deriving DecidableEq, Repr

/-- What is asked for. -/
inductive Command where
  | tokens (file : Text) (format : Format)
  | indent (file : Text) (write : Bool) (width : Option Nat) (tabs : Bool)
  | match_ (file : Text) (position : Position)
  | close (file : Text) (position : Position)
  | context (file : Text) (position : Position) (format : Format)
  | highlight (file : Text) (format : Format)
  | names (file : Text) (format : Format)
  | check (file : Text) (format : Format)
  | grammar
  deriving DecidableEq, Repr

/-- What the arguments come to. -/
inductive Invocation where
  | run (settings : Option Text) (command : Command)
  | version
  /-- help on a command, or on the program -/
  | help (command : Option String)
  deriving DecidableEq, Repr

/-- What an option takes. -/
inductive OptionKind where
  /-- nothing: it is given or not -/
  | flag
  /-- a value that passes a test -/
  | value (valid : Text → Bool)
  /-- nothing: it asks for help -/
  | help
  /-- nothing: it asks for the version -/
  | version

/-- An option of a command, and what help says of it. -/
structure OptionSpec where
  long : String
  short : Option Char := none
  kind : OptionKind := .flag
  about : String

/-- What was read of the arguments. -/
structure Taken where
  options : List (String × Text) := []
  words : List Text := []
  deriving DecidableEq, Repr

/-- How reading arguments ends. -/
inductive ArgumentReading where
  | usage
  | help
  | version
  /-- what was read, and the arguments that are left -/
  | done (taken : Taken) (rest : List Text)
  deriving DecidableEq, Repr

namespace Taken

/-- Adds an option with its value; `none` if it was given before or the value is not valid. -/
def add (t : Taken) (spec : OptionSpec) (v : Text) : Option Taken :=
  let valid := match spec.kind with
    | .value valid => valid v
    | _ => true
  if valid && (t.options.lookup spec.long).isNone then
    some { t with options := t.options ++ [(spec.long, v)] }
  else none

/-- The value of an option. -/
def get? (t : Taken) (long : String) : Option Text := t.options.lookup long

end Taken

namespace Arguments

/-- Whether an argument reads as an option rather than as a value. -/
def isOption (a : Text) : Bool := a.head? = some '-' && a.length ≠ 1

/-- What the letters after a dash come to. -/
inductive Letters where
  | usage
  | help
  | version
  | done (taken : Taken)
  /-- the value of the last letter's option is still to come -/
  | needs (taken : Taken) (spec : OptionSpec)

/-- Reads the letters after a dash. -/
def letters (specs : List OptionSpec) (t : Taken) : Text → Letters
  | [] => .done t
  | c :: cs =>
    match specs.find? (·.short = some c) with
    | none => .usage
    | some spec =>
      match spec.kind with
      | .help => .help
      | .version => .version
      | .flag =>
        match t.add spec [] with
        | some t => letters specs t cs
        | none => .usage
      | .value _ =>
        if cs.isEmpty then .needs t spec
        else
          match t.add spec (if cs.head? = some '=' then cs.drop 1 else cs) with
          | some t => .done t
          | none => .usage

/-- Reads arguments.  With `maxWords` that many words may stand among them; without, the first word
    ends the reading. -/
def read (specs : List OptionSpec) (maxWords : Option Nat) (t : Taken) : List Text → ArgumentReading
  | [] => .done t []
  | a :: rest =>
    if !isOption a then
      match maxWords with
      | none => .done t (a :: rest)
      | some n =>
        if t.words.length < n && !a.isEmpty then
          read specs maxWords { t with words := t.words ++ [a] } rest
        else .usage
    else if a = ['-', '-'] then
      match maxWords with
      | none => .usage
      | some n =>
        if t.words.length + rest.length ≤ n && rest.all (!·.isEmpty) then
          .done { t with words := t.words ++ rest } []
        else .usage
    else if a.take 2 = ['-', '-'] then
      let name := (a.drop 2).takeWhile (· ≠ '=')
      let attached := a.drop (2 + name.length)
      match specs.find? (·.long.toList = name) with
      | none => .usage
      | some spec =>
        match spec.kind, attached with
        | .help, [] => .help
        | .version, [] => .version
        | .flag, [] =>
          match t.add spec [] with
          | some t => read specs maxWords t rest
          | none => .usage
        | .value _, _ :: v =>
          match t.add spec v with
          | some t => read specs maxWords t rest
          | none => .usage
        | .value _, [] =>
          match rest with
          | v :: rest =>
            if isOption v then .usage
            else
              match t.add spec v with
              | some t => read specs maxWords t rest
              | none => .usage
          | [] => .usage
        | _, _ => .usage
    else
      match letters specs t (a.drop 1) with
      | .usage => .usage
      | .help => .help
      | .version => .version
      | .done t => read specs maxWords t rest
      | .needs t spec =>
        match rest with
        | v :: rest =>
          if isOption v then .usage
          else
            match t.add spec v with
            | some t => read specs maxWords t rest
            | none => .usage
        | [] => .usage

/-! ## Options -/

/-- A value that is not empty. -/
def notEmpty (v : Text) : Bool := !v.isEmpty

/-- The format of the given name. -/
def formatOf? (v : Text) : Option Format :=
  if v = "text".toList then some .text else if v = "json".toList then some .json else none

/-- The width of an indentation. -/
def widthOf? (v : Text) : Option Nat := (wordOf? v).filter fun n => 1 ≤ n ∧ n < UInt32.size

def helpOption : OptionSpec :=
  { long := "help", short := some 'h', kind := .help, about := "Print help" }

def configOption : OptionSpec :=
  { long := "config", kind := .value notEmpty,
    about := "Configuration file layered over the defaults and ./bloc.toml" }

def formatOption : OptionSpec :=
  { long := "format", short := some 'f', kind := .value fun v => (formatOf? v).isSome,
    about := "Output format [default: text] [possible values: text, json]" }

/-- An option that takes a number. -/
def numberOption (long : String) (short : Char) (about : String) : OptionSpec :=
  { long := long, short := some short, kind := .value fun v => (wordOf? v).isSome, about := about }

def positionOptions : List OptionSpec :=
  [numberOption "offset" 'o' "Byte offset in the file",
    numberOption "line" 'l' "Line number, starting at 1",
    numberOption "column" 'c' "Byte column on the line, starting at 1"]

def indentOptions : List OptionSpec :=
  [{ long := "write", short := some 'w',
     about := "Rewrite the file instead of printing the result" },
    { long := "indent-width", kind := .value fun v => (widthOf? v).isSome,
      about := "Columns per indentation level" },
    { long := "tabs", about := "Indent with tabs" }]

/-- The options of the program itself. -/
def rootOptions : List OptionSpec :=
  [configOption, helpOption,
    { long := "version", short := some 'V', kind := .version, about := "Print version" }]

/-- A command as it is offered. -/
structure CommandSpec where
  name : String
  about : String
  options : List OptionSpec := []
  /-- whether it works on a file -/
  onFile : Bool := true
  /-- the options of which one has to be given -/
  choice : List String := []

/-- The commands. -/
def commands : List CommandSpec :=
  let at_ : List String := ["offset", "line"]
  [{ name := "tokens", about := "List the tokens of a script", options := [formatOption] },
    { name := "indent", about := "Reindent a script", options := indentOptions },
    { name := "match", about := "Find the construct boundary matching the keyword at a position",
      options := positionOptions, choice := at_ },
    { name := "close", about := "Print the text that closes the innermost open construct",
      options := positionOptions, choice := at_ },
    { name := "context", about := "List the constructs open at a position, outermost first",
      options := formatOption :: positionOptions, choice := at_ },
    { name := "highlight", about := "Print highlight spans", options := [formatOption] },
    { name := "names", about := "List bloc names and report begin/end pairs whose names differ",
      options := [formatOption] },
    { name := "check", about := "Run the configured linter on a script", options := [formatOption] },
    { name := "grammar", about := "Print the block grammar's precedence relations", onFile := false }]

/-- The options that a command takes, with those that every command has. -/
def CommandSpec.allOptions (c : CommandSpec) : List OptionSpec := c.options ++ [configOption, helpOption]

/-! ## Commands -/

/-- The format that is asked for. -/
def formatIn (t : Taken) : Format := ((t.get? "format").bind formatOf?).getD .text

/-- The position that is asked for: an offset, or both a line and a column.  A column beside an offset
    changes nothing. -/
def positionIn? (t : Taken) : Option Position :=
  let number (long : String) : Option Nat := (t.get? long).bind wordOf?
  match number "offset", number "line", number "column" with
  | some n, none, _ => some (.offset n)
  | none, some line, some column => some (.lineColumn line column)
  | _, _, _ => none

/-- The command of the given name with what was read of its arguments. -/
def commandOf? (name : String) (t : Taken) : Option Command :=
  match name, t.words with
  | "grammar", [] => some .grammar
  | "tokens", [file] => some (.tokens file (formatIn t))
  | "highlight", [file] => some (.highlight file (formatIn t))
  | "names", [file] => some (.names file (formatIn t))
  | "check", [file] => some (.check file (formatIn t))
  | "indent", [file] =>
    some (.indent file (t.get? "write").isSome ((t.get? "indent-width").bind widthOf?)
      (t.get? "tabs").isSome)
  | "match", [file] => (positionIn? t).map (.match_ file ·)
  | "close", [file] => (positionIn? t).map (.close file ·)
  | "context", [file] => (positionIn? t).map (.context file · (formatIn t))
  | _, _ => none

/-- The topic of the help that the words after `help` ask for: at most one, the name of a command or
    of help itself. -/
def topic? : List Text → Option (Option String)
  | [] => some none
  | [name] =>
    let name := String.ofList name
    if name = "help" || commands.any (·.name = name) then some (some name) else none
  | _ => none

/-- What the arguments ask for; `none` if they do not fit. -/
def parse? (args : List Text) : Option Invocation :=
  match read rootOptions none {} args with
  | .usage => none
  | .help => some (.help none)
  | .version => some .version
  | .done _ [] => none
  | .done root (name :: args) =>
    let name := String.ofList name
    if name = "help" then (topic? args).map .help
    else
      match commands.find? (·.name = name) with
      | none => none
      | some command =>
        match read command.allOptions (some command.onFile.toNat) {} args with
        | .done t _ => (commandOf? name t).map (.run ((t.get? "config").or (root.get? "config")) ·)
        | .help => some (.help (some name))
        | _ => none

end Arguments

end BlockScript
