/-
  The program on the command line: it reads the files that the arguments name, performs what they ask
  for, and writes the outcome.
-/
import BlockScript.Command.Run

namespace BlockScript

/-- Adds the file at a path of the file system to a folder, if there is one.  A folder is known by
    something in it. -/
def readInto (folder : Folder) (path : Text) : IO Folder := do
  let add (path : Text) (content : Bytes) : Folder :=
    ⟨(Folder.partsOf path, content) :: folder.files⟩
  try
    let content ← IO.FS.readBinFile (String.ofList path)
    return add path content.toList
  catch
    | .inappropriateType .. => return add (path ++ "/-".toList) []
    | _ => return folder

/-- Writes back the files that a run changed. -/
def writeBack (before after : Folder) (paths : List Text) : IO Unit :=
  for path in paths do
    match after.read path with
    | .ok content =>
      if (before.read path).toOption ≠ some content then
        IO.FS.writeBinFile (String.ofList path) (ByteArray.mk content.toArray)
    | .error _ => pure ()

end BlockScript

open BlockScript

def main (args : List String) : IO UInt32 := do
  match Arguments.parse? (args.map String.toList) with
  | none =>
    IO.eprint (String.ofList (Help.page none))
    return 2
  | some invocation =>
    let folder ← invocation.paths.foldlM readInto {}
    let printed := invocation.perform folder
    IO.print (String.ofList printed.out)
    IO.eprint (String.ofList printed.err)
    writeBack folder printed.folder invocation.paths
    return UInt32.ofNat printed.status
