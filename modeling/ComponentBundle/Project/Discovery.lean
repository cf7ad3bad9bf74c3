import ComponentBundle.Files.Listing
import ComponentBundle.Project.Resolver
import ComponentBundle.Text.Order

/-!
All component files below the module root, whether anything imports them or not.
-/
namespace ComponentBundle.Project
open ComponentBundle.Text ComponentBundle.Files

/-- A relative path is told of as it is shown, so files that differ may have the same one. -/
def ListedFile.location (file : ListedFile) : Location :=
  ⟨file.path, join [slash] (file.names.map Text.shown)⟩

/-- The component files sorted by relative path. A root that is missing has none. -/
def componentFiles (tree : FileTree) (root : FilePath) (extension : Text) : List Location :=
  let found := (listFiles tree root).filter fun file =>
    file.path.extension? = some (Text.bytes (withoutDots extension))
  (found.map ListedFile.location).mergeSort fun a b => notAfter a.relative b.relative

end ComponentBundle.Project
