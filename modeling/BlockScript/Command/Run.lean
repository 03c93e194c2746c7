/-
  The commands of the program, run in a folder.

  Every command loads the settings, reads its file, and answers on the two output streams.  A failure
  is written to the second of them, with its cause if it has one, and the program ends with status 1.
  Where a number does not fit its bits the program stops there, with status 101.
-/
import BlockScript.Command.Help
import BlockScript.Command.Json
import BlockScript.Lint.Shell
import BlockScript.Nesting.Closing
import BlockScript.Nesting.Indent
import BlockScript.Nesting.Names
import BlockScript.Paint.Painter
import BlockScript.Settings.Loader

namespace BlockScript

/-- What a run of the program leaves behind. -/
structure Printed where
  status : Nat := 0
  out : Text := []
  err : Text := []
  folder : Folder
  deriving DecidableEq

/-- Why a command fails. -/
inductive Failure where
  | settings (e : SettingsError)
  | unreadable (file : Text) (e : FileError)
  | position (e : PositionError)
  /-- a line takes more blanks than a text can have -/
  | tooWide
  | noMatch (line column : Nat)
  | close (e : CloseError)
  | trees (e : TreeError)
  | check (e : CheckError)

namespace Failure

/-- The failure in words. -/
def message : Failure → Text
  | .settings _ => "failed to load configuration".toList
  | .unreadable file _ => "cannot read ".toList ++ file
  | .position e => e.message.toList
  | .tooWide => "capacity overflow".toList
  | .noMatch line column =>
    ("nothing matches the keyword at " ++ toString line ++ ":" ++ toString column).toList
  | .close e => e.message.toList
  | .trees e => e.message.toList
  | .check e => e.message.toList

/-- What is behind the failure. -/
def cause? : Failure → Option Text
  | .settings e => some e.message
  | .unreadable _ e => some e.message.toList
  | .check e => e.cause?.map String.toList
  | _ => none

/-- Whether the program stops where the failure occurs. -/
def stops : Failure → Bool
  | .position .overflow | .tooWide => true
  | _ => false

/-- The status that the program ends with. -/
def status (f : Failure) : Nat := if f.stops then 101 else 1

/-- The failure as it is written. -/
def report (f : Failure) : Text :=
  (if f.stops then [] else "Error: ".toList) ++ f.message ++ ['\n'] ++
    match f.cause? with
    | some cause => "\nCaused by:\n    ".toList ++ cause ++ ['\n']
    | none => []

end Failure

namespace Command

/-! ## Answers in JSON -/

/-- The label of a token's kind. -/
def kindJson (k : TokenKind) : Json := .string k.label.toList

/-- A token, with the place of its name. -/
def tokenJson (t : Token) : Json :=
  let payload := match t.name with
    | some n => Json.range n.start n.stop
    | none => .null
  .object [("kind", kindJson t.kind), ("span", .range t.start t.stop), ("payload", payload)]

/-- A construct that is open. -/
def constructJson (c : OpenConstruct) : Json :=
  .object [("kind", kindJson c.kind), ("position", .number c.start)]

/-- A painted part of a text. -/
def spanJson (s : Span) : Json :=
  .object [("range", .range s.start s.stop), ("class", .string s.colour.label.toList)]

/-- The name of a block. -/
def blockNameJson (n : BlockName) : Json :=
  let side := match n.side with
    | .opening => "begin"
    | .closing => "end"
  .object [("side", .string side.toList), ("name", .string n.name.text),
    ("range", .range n.name.start n.name.stop), ("token", .range n.token.start n.token.stop)]

/-- A pair whose names differ. -/
def mismatchJson (p : Pair) : Json :=
  .object [("begin", tokenJson p.opener), ("end", tokenJson p.closer),
    ("expected", .string p.opener.nameText), ("found", .string p.closer.nameText)]

/-- A finding of the linter. -/
def diagnosticJson (d : Diagnostic) : Json :=
  .object [("range", .range d.start d.stop), ("line", .number d.line),
    ("severity", .string d.severity.word.toList), ("message", .string d.message)]

/-! ## Answers in text -/

/-- A line and a column. -/
def place (line column : Nat) : Text := (toString line ++ ":" ++ toString column).toList

/-- The line and the column of an offset. -/
def placeIn (t : Text) (p : Nat) : Text :=
  let (line, column) := t.lineColumn p
  place line column

/-- Fields with tabs between them, on a line. -/
def row (fields : List Text) : Text := List.intercalate ['\t'] fields ++ ['\n']

/-- A value in JSON, with a line break. -/
def jsonLine (v : Json) : Text := v.pretty ++ ['\n']

def tokenRow (t : Text) (tok : Token) : Text :=
  row [placeIn t tok.start, tok.kind.symbol.toList, Text.quoted (tok.textIn t)]

def constructRow (t : Text) (c : OpenConstruct) : Text :=
  row [placeIn t c.start, c.kind.symbol.toList]

def spanRow (t : Text) (s : Span) : Text :=
  row [placeIn t s.start, s.colour.label.toList, Text.quoted (t.slice s.start s.stop)]

def blockNameRow (t : Text) (n : BlockName) : Text :=
  let side := match n.side with
    | .opening => "Begin"
    | .closing => "End"
  row [placeIn t n.name.start, side.toList, n.name.text]

/-- The warning about a pair whose names differ. -/
def mismatchLine (file t : Text) (p : Pair) : Text :=
  let (line, _) := t.lineColumn p.opener.start
  file ++ ':' :: placeIn t p.closer.start ++ ": `end ".toList ++ p.closer.nameText
    ++ "` closes `begin ".toList ++ p.opener.nameText
    ++ ("` from line " ++ toString line ++ "\n").toList

def diagnosticLine (file t : Text) (d : Diagnostic) : Text :=
  file ++ ':' :: placeIn t d.start ++ (": " ++ d.severity.word ++ ": ").toList ++ d.message ++ ['\n']

/-- The relations of the block grammar, the left side at the end of ten columns. -/
def grammarRows : Text :=
  blockTable.relations.flatMap fun ((left, right), r) =>
    let l := left.symbol.toList
    List.replicate (10 - l.length) ' ' ++ l
      ++ (" " ++ r.symbol ++ " " ++ right.symbol ++ "\n").toList

/-! ## Running -/

/-- The layers of settings: the folder's own file, and one that is asked for. -/
def layers (settings : Option Text) : List Layer :=
  .file false "bloc.toml".toList ::
    match settings with
    | some file => [.file true file]
    | none => []

/-- The keys that the options of `indent` set. -/
def indentKeys (width : Option Nat) (tabs : Bool) : List Layer :=
  (match width with
    | some n => [.key "engine.indent_width".toList (.scalar none (.int n))]
    | none => []) ++
  (if tabs then [.key "engine.use_tabs".toList (.scalar none (.bool true))] else [])

/-- The settings and the text that a command works with. -/
def load (folder : Folder) (layers : List Layer) (file : Text) : Except Failure (Settings × Text) :=
  match Settings.load folder layers with
  | .error e => .error (.settings e)
  | .ok s =>
    match folder.readText file with
    | .error e => .error (.unreadable file e)
    | .ok t => .ok (s, t)

/-- The offset of a position in a text. -/
def locate (t : Text) (p : Position) : Except Failure Nat :=
  match t.locate p with
  | .error e => .error (.position e)
  | .ok n => .ok n

/-- The findings of the settings' linter about a text; a linter that never ends finds nothing. -/
def findings (folder : Folder) (s : Settings) (t : Text) : Except Failure (List Diagnostic) :=
  let linter :=
    Linter.ofProgram folder (String.ofList s.checker.program) s.checker.args s.checker.limit
  match Session.start {} linter t with
  | (.error e, _) => .error (.check e)
  | (.ok i, session) =>
    match session.wait linter i with
    | (.failed e, _) => .error (.check e)
    | (.outcome o, session) => .ok ((session.accept o).1.getD [])
    | _ => .ok []

/-- The rows of a list in the format that is asked for. -/
def listing {α : Type} (format : Format) (json : α → Json) (line : α → Text) (xs : List α) : Text :=
  match format with
  | .json => jsonLine (.array (xs.map json))
  | .text => xs.flatMap line

/-- Runs a command in a folder. -/
def perform (folder : Folder) (settings : Option Text) : Command → Except Failure Printed
  | .grammar => .ok { out := grammarRows, folder := folder }
  | .tokens file format => do
    let (s, t) ← load folder (layers settings) file
    return { out := listing format tokenJson (tokenRow t) (s.profile.tokenize t), folder := folder }
  | .indent file write width tabs => do
    let (s, t) ← load folder (layers settings ++ indentKeys width tabs) file
    match s.profile.tryReindent t with
    | none => throw .tooWide
    | some indented =>
      if write then
        return { folder := if indented = t then folder else folder.write file (Text.toBytes indented) }
      else return { out := indented, folder := folder }
  | .match_ file position => do
    let (s, t) ← load folder (layers settings) file
    let p ← locate t position
    match s.profile.matching (Buffer.ofText t) p with
    | some q => return { out := row [placeIn t q, (toString q).toList], folder := folder }
    | none =>
      let (line, column) := t.lineColumn p
      throw (.noMatch line column)
  | .close file position => do
    let (s, t) ← load folder (layers settings) file
    let p ← locate t position
    match s.profile.closingText (Buffer.ofText t) p with
    | .ok closing => return { out := closing ++ ['\n'], folder := folder }
    | .error e => throw (.close e)
  | .context file position format => do
    let (s, t) ← load folder (layers settings) file
    let p ← locate t position
    let constructs := s.profile.context (Buffer.ofText t) p
    match format with
    | .json =>
      let answer := Json.object [("constructs", .array (constructs.map constructJson))]
      return { out := jsonLine answer, folder := folder }
    | .text => return { out := constructs.flatMap (constructRow t), folder := folder }
  | .highlight file format => do
    let (s, t) ← load folder (layers settings) file
    match Painter.compile defaultTrees s.profile.dialect with
    | .error e => throw (.trees e)
    | .ok painter =>
      return { out := listing format spanJson (spanRow t) (painter.paint t 0 t.size), folder := folder }
  | .names file format => do
    let (s, t) ← load folder (layers settings) file
    let names := s.profile.blockNames t
    let mismatches := s.profile.nameMismatches t
    match format with
    | .json =>
      let answer := Json.object [("names", .array (names.map blockNameJson)),
        ("mismatches", .array (mismatches.map mismatchJson))]
      return { out := jsonLine answer.sortKeys, folder := folder }
    | .text =>
      return { out := names.flatMap (blockNameRow t), err := mismatches.flatMap (mismatchLine file t),
               folder := folder }
  | .check file format => do
    let (s, t) ← load folder (layers settings) file
    let found ← findings folder s t
    let status := if found.any (·.severity = .error) then 1 else 0
    return { status := status, out := listing format diagnosticJson (diagnosticLine file t) found,
             folder := folder }

end Command

/-- The name and number of the program. -/
def versionLine : Text := "bloc 0.1.0\n".toList

/-- The files that the program may have to read. -/
def Invocation.paths : Invocation → List Text
  | .run settings command =>
    let own : List Text := match command with
      | .tokens file _ | .indent file .. | .match_ file _ | .close file _ | .context file .. => [file]
      | .highlight file _ | .names file _ | .check file _ => [file]
      | .grammar => []
    let files := "bloc.toml".toList :: settings.toList
    files ++ files.map (· ++ ".toml".toList) ++ own
  | _ => []

/-- Does what the arguments ask for, in a folder. -/
def Invocation.perform (folder : Folder) : Invocation → Printed
  | .version => { out := versionLine, folder := folder }
  | .help topic => { out := Help.page topic, folder := folder }
  | .run settings command =>
    match command.perform folder settings with
    | .ok printed => printed
    | .error f => { status := f.status, err := f.report, folder := folder }

end BlockScript
