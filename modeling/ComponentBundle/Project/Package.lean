import ComponentBundle.Files.Tree
import ComponentBundle.Json.Record
import ComponentBundle.Text.Blank

/-!
What the package file of a project says about it. A file that is missing or cannot be
read says nothing.
-/
namespace ComponentBundle.Project
open ComponentBundle.Text ComponentBundle.Files

structure Package where
  name : Option Text := none
  version : Option Text := none
  /-- The extension of the package, with its entry point if it has one. -/
  extension : Option (Option Text) := none
  deriving Repr, DecidableEq

namespace Package

def fields : List Text := ["name", "version", "peek-extensions"].map String.toList

def extensionFields : List Text := ["entry-point"].map String.toList

def extension? (value : Json) : Option (Option Text) := do
  let values ← Json.fieldValues? extensionFields 0 value
  Json.valueOr none (Json.optional? Json.text?) (values[0]?).join

def ofJson? (value : Json) : Option Package := do
  let values ← Json.fieldValues? fields 0 value
  let field := fun i => (values[i]?).join
  return {
    name := ← Json.valueOr none (Json.optional? Json.text?) (field 0)
    version := ← Json.valueOr none (Json.optional? Json.text?) (field 1)
    extension := ← Json.valueOr none (Json.optional? extension?) (field 2) }

def read (tree : FileTree) (path : FilePath) : Package :=
  match tree.readText path with
  | .ok t => ((Json.read? t).bind ofJson?).getD {}
  | .error _ => {}

def unversioned : Text := "0.0.0"

def versionText (package : Package) : Text := package.version.getD unversioned

def entryPoint? (package : Package) : Option Text :=
  package.extension.join.filter fun entry => !allBlank entry

end Package

end ComponentBundle.Project
