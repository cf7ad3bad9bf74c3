import ComponentBundle.Files.Tree
import ComponentBundle.Text.Order

/-!
The files below a path, in the order of the names on the way to them.
-/
namespace ComponentBundle.Files
open ComponentBundle.Text

structure ListedFile where
  /-- The path as it is spelled from the one that was listed. -/
  path : FilePath
  /-- The names below the listed path; none if it is the file itself. -/
  names : List Name
  content : Content
  deriving Repr, DecidableEq

def below? : (key other : Key) → Option Key
  | [], other => some other
  | _ :: _, [] => none
  | a :: key, b :: other => if a = b then below? key other else none

def FileTree.filesBelow (tree : FileTree) (key : Key) : List (List Name × Content) :=
  (tree.entries.filterMap fun (other, node) =>
    match below? key other, node with
    | some names, .file content => some (names, content)
    | _, _ => none).mergeSort fun a b => namesNotAfter a.1 b.1

def listFiles (tree : FileTree) (path : FilePath) : List ListedFile :=
  match tree.locate path with
  | .error _ => []
  | .ok key =>
    (tree.filesBelow key).map fun (names, content) =>
      ⟨names.foldl (fun path name => path.joined ⟨name⟩) path, names, content⟩

/-- The files below a key that one tree no longer holds or holds otherwise than another,
    and those that it has more; a file that is gone has no content. -/
def changedBelow (key : Key) (old new : FileTree) : List (List Text × Option Content) :=
  let before := old.filesBelow key
  let after := new.filesBelow key
  (after.filter fun (names, content) => before.lookup names ≠ some content).map
      (fun (names, content) => (names.map Text.shown, some content))
    ++ (before.filter fun (names, _) => (after.lookup names).isNone).map
      fun (names, _) => (names.map Text.shown, none)

end ComponentBundle.Files
