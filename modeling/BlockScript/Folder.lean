/-
  A folder of files, and what a path means in it.

  A path is read part by part.  Empty parts and `.` stay in place, `..` goes up, and every part but
  the last has to name a folder.  Folders are implied by the files in them.  Of what lies outside,
  only the system's usual folders are known.
-/
import BlockScript.Text.Utf8

namespace BlockScript

namespace Text

/-- The parts of a text between the characters `c`. -/
def splitOn (c : Char) : Text → List Text
  | [] => [[]]
  | d :: t =>
    if d = c then [] :: splitOn c t
    else
      match splitOn c t with
      | [] => [[d]]
      | part :: parts => (d :: part) :: parts

end Text

/-- What stands at a path. -/
inductive Place where
  | file (content : Bytes)
  | folder
  | missing
  /-- the path goes on below a file -/
  | belowFile
  deriving DecidableEq, Repr

/-- Why a file cannot be read. -/
inductive FileError where
  | missing
  | isFolder
  | belowFile
  | notText
  deriving DecidableEq, Repr

namespace FileError

/-- The error in words. -/
def message : FileError → String
  | .missing => "No such file or directory (os error 2)"
  | .isFolder => "Is a directory (os error 21)"
  | .belowFile => "Not a directory (os error 20)"
  | .notText => "stream did not contain valid UTF-8"

end FileError

/-- The files of a folder, by the parts of their paths. -/
structure Folder where
  files : List (List Text × Bytes) := []
  deriving DecidableEq, Repr

namespace Folder

/-- The parts of a path that move; a path from the system's root starts with the part `/`. -/
def partsOf (path : Text) : List Text :=
  let parts := (Text.splitOn '/' path).filter fun part => part ≠ [] && part ≠ ['.']
  if path.head? = some '/' then ['/'] :: parts else parts

/-- The folder of the given files. -/
def ofFiles (files : List (Text × Bytes)) : Folder :=
  ⟨files.map fun (name, content) => (partsOf name, content)⟩

/-- The folders of the system that are known. -/
def systemFolders : List (List Text) :=
  ["/", "/bin", "/dev", "/etc", "/home", "/tmp", "/usr", "/usr/bin", "/var"].map fun path =>
    partsOf path.toList

/-- What stands where the parts lead, all of them names. -/
def entry (f : Folder) (parts : List Text) : Place :=
  match f.files.lookup parts with
  | some content => .file content
  | none =>
    if parts = partsOf "/dev/null".toList then .file []
    else if parts.isEmpty || systemFolders.contains parts then .folder
    else if f.files.any fun (file, _) => parts.isPrefixOf file then .folder
    else .missing

/-- The names that lead where the parts do, starting from `here` (last name first), or what stops
    them. -/
def walk (f : Folder) (here : List Text) : List Text → Except Place (List Text)
  | [] => .ok here.reverse
  | part :: parts =>
    match f.entry here.reverse with
    | .folder =>
      if part ≠ ['.', '.'] then walk f (part :: here) parts
      else
        match here with
        | [] => .error (if parts.isEmpty then .folder else .missing)
        | _ :: up => walk f up parts
    | .file _ => .error .belowFile
    | place => .error place

/-- What stands at a path. -/
def place (f : Folder) (path : Text) : Place :=
  let found :=
    if path.isEmpty then .missing
    else
      match f.walk [] (partsOf path) with
      | .ok parts => f.entry parts
      | .error place => place
  match found with
  | .file content => if path.getLast? = some '/' then .belowFile else .file content
  | place => place

/-- The bytes of the file at a path. -/
def read (f : Folder) (path : Text) : Except FileError Bytes :=
  match f.place path with
  | .file content => .ok content
  | .folder => .error .isFolder
  | .missing => .error .missing
  | .belowFile => .error .belowFile

/-- The text of the file at a path. -/
def readText (f : Folder) (path : Text) : Except FileError Text :=
  match f.read path with
  | .error e => .error e
  | .ok content =>
    match Text.ofBytes? content with
    | some t => .ok t
    | none => .error .notText

/-- Puts the bytes into the file at a path. -/
def write (f : Folder) (path : Text) (content : Bytes) : Folder :=
  match f.walk [] (partsOf path) with
  | .ok parts => ⟨(parts, content) :: f.files.filter fun (file, _) => file ≠ parts⟩
  | .error _ => f

end Folder

end BlockScript
