import ComponentBundle.Command.Run

/-!
The program. It reads the files that a command needs, runs the command on them, and
carries out the changes that the command made to them.
-/
namespace ComponentBundle.Command
open ComponentBundle.Text ComponentBundle.Files ComponentBundle.Project

def keyOf (path : String) : Key := (FilePath.ofText path).pieces.filter fun name => !name.isEmpty

def spelled (names : List Text) : String := String.ofList (names.flatMap fun name => slash :: name)

def withWay (tree : FileTree) (key : Key) : FileTree :=
  (List.range key.length).foldl (fun tree n => tree.put (key.take n) .directory) tree

partial def readBelow (tree : FileTree) (key : Key) : IO FileTree := do
  let path := System.mkFilePath [spelled (key.map Text.shown)]
  if ← path.isDir then
    let mut tree := tree.put key .directory
    for entry in ← path.readDir do
      tree ← readBelow tree (key ++ [Text.bytes entry.fileName.toList])
    return tree
  else
    let bytes ← IO.FS.readBinFile path
    return tree.put key (.file (.ofBytes bytes.toList))

def readPath (tree : FileTree) (path : FilePath) : IO FileTree := do
  let name := System.mkFilePath [path.shown.toString]
  if ← name.pathExists then
    let key := keyOf (← IO.FS.realPath name).toString
    readBelow (withWay tree key) key
  else return tree

def readNeeded (home : Key) (given : Given) : IO FileTree := do
  let tree ←
    match given.value? .config with
    | some config => readPath (FileTree.atHome home) ⟨config⟩
    | none => pure (FileTree.atHome home)
  match configured tree given with
  | .error _ => return tree
  | .ok settings =>
    let settings := given.override settings
    [settings.modulesPath, settings.outputPath, settings.packagePath].foldlM readPath tree

def carryOut (change : List Text × Option Content) : IO Unit := do
  let path := spelled change.1
  match change.2 with
  | none => IO.FS.removeFile path
  | some content =>
    IO.FS.createDirAll (spelled change.1.dropLast)
    IO.FS.writeBinFile (path ++ ".tmp") ⟨content.bytes.toArray⟩
    IO.FS.rename (path ++ ".tmp") path

end ComponentBundle.Command

open ComponentBundle ComponentBundle.Command in
def main (arguments : List String) : IO UInt32 := do
  let arguments := arguments.map String.toList
  let home := keyOf (← IO.currentDir).toString
  let tree ←
    match readArguments arguments with
    | .ok given => readNeeded home given
    | .error _ => pure (Files.FileTree.atHome home)
  let (result, changed) := run arguments tree
  (Files.changedBelow [] tree changed).forM carryOut
  unless result.output.isEmpty do IO.println result.output
  unless result.errors.isEmpty do IO.eprintln result.errors
  return result.code.toUInt32
