import ComponentBundle.Bundle.Compilation
import ComponentBundle.Files.Change

/-!
Writing a compilation. The assets go first and the manifest last, so a manifest never
tells of assets that are not there yet.
-/
namespace ComponentBundle.Bundle
open ComponentBundle.Text ComponentBundle.Files

/-- Something that takes assets and may refuse one; what it is then stays as it is. -/
abbrev Sink (σ : Type) := Asset → σ → Except Problem Unit × σ

def writeAll {σ : Type} (sink : Sink σ) : List Asset → σ → Except Problem Unit × σ
  | [], state => (.ok (), state)
  | asset :: more, state =>
    match sink asset state with
    | (.ok (), state) => writeAll sink more state
    | (.error problem, state) => (.error problem, state)

def Compilation.files (compilation : Compilation) : List Asset :=
  compilation.assets ++ [⟨manifestFile, compilation.manifest.render⟩]

def publish {σ : Type} (sink : Sink σ) (compilation : Compilation) :
    σ → Except Problem Unit × σ := writeAll sink compilation.files

def temporaryEnding : Name := Text.bytes ".tmp"

/-- The file next to a target that is written before the target is replaced. -/
def temporary (target : FilePath) : FilePath :=
  target.withFileName (target.fileName?.getD [] ++ temporaryEnding)

def step (path : FilePath) (change : Change) (tree : FileTree) : Except Problem Unit × FileTree :=
  match change tree with
  | (.ok (), tree) => (.ok (), tree)
  | (.error fault, tree) => (.error (.file path.shown fault), tree)

/-- Replaces a file as a whole: its new content is moved over it from a temporary file,
    which goes again if that is refused. -/
def replaceFile (target : FilePath) (content : Content) (tree : FileTree) :
    Except Problem Unit × FileTree :=
  let made :=
    match target.parent? with
    | some parent => step parent (makeDirectories parent) tree
    | none => (.ok (), tree)
  match made with
  | (.error problem, tree) => (.error problem, tree)
  | (.ok (), tree) =>
    match step (temporary target) (writeFile (temporary target) content) tree with
    | (.error problem, tree) => (.error problem, tree)
    | (.ok (), tree) =>
      match step target (moveFile (temporary target) target) tree with
      | (.error problem, tree) => (.error problem, (removeFile (temporary target) tree).2)
      | (.ok (), tree) => (.ok (), tree)

def directorySink (output : FilePath) : Sink FileTree := fun asset tree =>
  replaceFile (output.joined ⟨asset.path⟩) (.text asset.contents) tree

end ComponentBundle.Bundle
