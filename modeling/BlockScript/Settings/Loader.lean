/-
  The settings of the program, and how they are put together.

  Settings come in layers: the defaults, then files in the order they are given, then single keys that
  are set above every file.  A file is looked for under its own name and under that name with `.toml`
  added.
-/
import BlockScript.Folder
import BlockScript.Nesting.Profile
import BlockScript.Settings.Coercion
import BlockScript.Settings.Toml.Document

namespace BlockScript

/-- The program that checks scripts. -/
structure Checker where
  program : Text
  args : List Text
  /-- the milliseconds it is given -/
  limit : Option Nat
  deriving DecidableEq, Repr

/-- All settings. -/
structure Settings where
  profile : Profile
  checker : Checker
  deriving DecidableEq

/-- A layer of settings. -/
inductive Layer where
  | file (required : Bool) (name : Text)
  /-- one key, above every file -/
  | key (path : Text) (value : Setting)

namespace Settings

/-- The settings that hold where no layer says otherwise. -/
def defaults : List (Text × Setting) :=
  let text (s : String) : Setting := .scalar none (.string s.toList)
  let nat (n : Nat) : Setting := .scalar none (.int n)
  let bool (b : Bool) : Setting := .scalar none (.bool b)
  let group (fields : List (String × Setting)) : Setting :=
    .table none (fields.map fun (name, v) => (name.toList, v))
  [("syntax".toList, group [("comment_start", text "#"), ("case_insensitive", bool true)]),
    ("engine".toList,
      group [("indent_width", nat 4), ("use_tabs", bool false), ("max_scan_tokens", nat 20000)]),
    ("checker".toList,
      group [("program", text "bloc-check"), ("args", .array none [text "-"]), ("timeout_ms", nat 0)])]

/-- A path as it is shown: its moving parts. -/
def shownPath (path : Text) : Text :=
  if path.head? = some '/' then path else List.intercalate ['/'] (Folder.partsOf path)

/-- The bytes of the settings file of the given name, and its path.  The empty device is no file. -/
def find? (folder : Folder) (name : Text) : Option (Text × Bytes) :=
  let at_ (path : Text) : Option (Text × Bytes) :=
    match folder.place path with
    | .file content => if path = "/dev/null".toList then none else some (shownPath path, content)
    | _ => none
  (at_ name).or (at_ (name ++ ".toml".toList))

/-- The text of a settings file, without the mark that may stand at its start. -/
def textOf (content : Bytes) : Text :=
  match Text.ofBytesLossy content with
  | '\ufeff' :: t => t
  | t => t

/-- Lays the fields of a file over a value.  Their keys are read as paths where they can be. -/
def layFile (root : Setting) (fields : List (Text × Setting)) : Setting :=
  fields.foldl
    (fun root (key, v) => Setting.layAt v root ((Setting.pathOf? key).getD [.key key])) root

/-- Lays the files over the defaults, in order. -/
def layFiles (folder : Folder) (root : Setting) : List Layer → Except SettingsError Setting
  | [] => .ok root
  | .key .. :: layers => layFiles folder root layers
  | .file required name :: layers =>
    match find? folder name with
    | none => if required then .error (.noFile name) else layFiles folder root layers
    | some (path, content) =>
      match Toml.read (some path) (textOf content) with
      | none => .error (.malformed path)
      | some fields => layFiles folder (layFile root fields) layers

/-- The paths and values of the keys that are set. -/
def keysOf : List Layer → Except SettingsError (List (List Setting.Step × Setting))
  | [] => .ok []
  | .file .. :: layers => keysOf layers
  | .key key v :: layers =>
    match Setting.pathOf? key with
    | none => .error (.badKey key)
    | some path => (keysOf layers).map ((path, v) :: ·)

/-- The group of the given name. -/
def groupOf (root : Setting) (name : String) (names : List String) :
    Except SettingsError (List (Text × Option Setting)) :=
  match root.fields.lookup name.toList with
  | none => .error (.lacks name.toList)
  | some s => s.members name.toList names

/-- The dialect that the settings describe. -/
def dialectOf (root : Setting) : Except SettingsError Dialect := do
  let group ← groupOf root "syntax" ["comment_start", "case_insensitive"]
  let marker ← Setting.readMember Setting.toText group[0]?
  let ignoreCase ← Setting.readMember Setting.toBool group[1]?
  return { marker := marker, ignoreCase := ignoreCase }

/-- The layout that the settings describe. -/
def layoutOf (root : Setting) : Except SettingsError Layout := do
  let group ← groupOf root "engine" ["indent_width", "use_tabs", "max_scan_tokens"]
  let width ← Setting.readMember Setting.toNat group[0]?
  let useTabs ← Setting.readMember Setting.toBool group[1]?
  let visits ← Setting.readMember Setting.toNat group[2]?
  return { indentWidth := width, useTabs := useTabs, maxVisits := visits }

/-- The checker that the settings describe; a limit of zero is none. -/
def checkerOf (root : Setting) : Except SettingsError Checker := do
  let group ← groupOf root "checker" ["program", "args", "timeout_ms"]
  let program ← Setting.readMember Setting.toText group[0]?
  let args ← Setting.readMember Setting.toTexts group[1]?
  let limit ← Setting.readMember Setting.toNat group[2]?
  return { program := program, args := args, limit := if limit = 0 then none else some limit }

/-- The settings that the layers give in a folder. -/
def load (folder : Folder) (layers : List Layer) : Except SettingsError Settings := do
  let keys ← keysOf layers
  let root ← layFiles folder (.table none defaults) layers
  let root := keys.foldl (fun root (path, v) => Setting.layAt v root path) root
  let dialect ← dialectOf root
  let layout ← layoutOf root
  let checker ← checkerOf root
  return { profile := { dialect := dialect, layout := layout }, checker := checker }

end Settings

end BlockScript
