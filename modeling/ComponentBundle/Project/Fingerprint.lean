import ComponentBundle.Files.Digest
import ComponentBundle.Files.Listing

/-!
Fingerprints of all files below a path, by which two states of a tree are compared.
-/
namespace ComponentBundle.Project
open ComponentBundle.Text ComponentBundle.Files

structure Fingerprint where
  path : FilePath
  digest : Text
  deriving Repr, DecidableEq

abbrev Snapshot := List Fingerprint

def fingerprints (tree : FileTree) (root : FilePath) : Snapshot :=
  (listFiles tree root).map fun file => ⟨file.path, Digest.sha256 file.content.bytes⟩

def digestOf? (snapshot : Snapshot) (path : FilePath) : Option Text :=
  (snapshot.find? fun print => print.path.same path).map Fingerprint.digest

/-- The paths that are new or differ, in the current order, and then those that are gone,
    in the previous order. -/
def differences (current previous : Snapshot) : List FilePath :=
  (current.filter fun print => digestOf? previous print.path ≠ some print.digest).map
      Fingerprint.path
    ++ (previous.filter fun print => (digestOf? current print.path).isNone).map Fingerprint.path

end ComponentBundle.Project
