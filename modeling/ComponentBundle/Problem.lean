import ComponentBundle.Files.Fault
import ComponentBundle.Text.Basic

/-!
What can go wrong with a bundle. A problem ends a compilation and is told by a
report with a stable code; a warning goes along with the result.
-/
namespace ComponentBundle

inductive PlaceholderFault where
  | strayTerminator
  | malformed (digits : Text)
  | repeated (index : Nat)
  | lost (index : Nat)
  deriving Repr, DecidableEq

inductive Problem where
  | noEntryPoint (packageFile : Text)
  | moduleNotFound (specifier modulesRoot : Text)
  | namingCollision (identifier first second : Text)
  | duplicateDeclaration (name first second : Text)
  | brokenPlaceholder (fault : PlaceholderFault)
  | file (path : Text) (fault : Files.Fault)
  deriving Repr, DecidableEq

namespace Code

def noEntryPoint : String := "BUNDLE-CONFIG-MISSING"
def moduleNotFound : String := "BUNDLE-MODULE-NOT-FOUND"
def namingCollision : String := "BUNDLE-NAMING-COLLISION"
def brokenPlaceholder : String := "BUNDLE-PROTECTION-VIOLATION"
def fileFault : String := "BUNDLE-IO"

def guarantee (code : String) : String :=
  if code = noEntryPoint then "No output is written without a declared entry point."
  else if code = moduleNotFound then "The entry module always exists in the emitted artifact."
  else if code = namingCollision then "Every module in a bundle is bound to a distinct identifier."
  else if code = brokenPlaceholder then
    "Markup, verbatim text and annotations survive shrinking byte for byte."
  else if code = fileFault then "A failed compile leaves the previous output in place."
  else "Unknown error."

end Code

structure Report where
  code : String
  message : String
  paths : List String
  hints : List String
  deriving Repr, DecidableEq

def Report.guarantee (report : Report) : String := Code.guarantee report.code

def Report.hasCode (report : Report) (code : String) : Bool := report.code = code

def Report.display (report : Report) : String :=
  "[" ++ report.code ++ "] " ++ report.message
    ++ String.join (report.hints.map fun hint => "\n  hint: " ++ hint)

def PlaceholderFault.message : PlaceholderFault → String
  | .strayTerminator => "placeholder terminator without a matching opener"
  | .malformed digits => "malformed placeholder `" ++ digits.toString ++ "`"
  | .repeated index => "placeholder " ++ toString index ++ " restored twice"
  | .lost index => "placeholder " ++ toString index ++ " was lost before restoring"

def Problem.report : Problem → Report
  | .noEntryPoint packageFile =>
    { code := Code.noEntryPoint
      message := "No entry point declared"
      paths := [packageFile.toString]
      hints := [
        "Set \"peek-extensions\": \x7b \"entry-point\": \"...\" \x7d in package.json",
        "or pass an explicit entry point in the bundler options"] }
  | .moduleNotFound specifier modulesRoot =>
    { code := Code.moduleNotFound
      message := "Module not found: " ++ specifier.toString
      paths := [modulesRoot.toString]
      hints := [] }
  | .namingCollision identifier first second =>
    { code := Code.namingCollision
      message := "`" ++ first.toString ++ "` and `" ++ second.toString
        ++ "` both derive the binding `" ++ identifier.toString ++ "`"
      paths := [first.toString, second.toString]
      hints := ["Rename one of the files so their derived names differ"] }
  | .duplicateDeclaration name first second =>
    { code := Code.namingCollision
      message := "`" ++ name.toString ++ "` is declared at the top level of both `"
        ++ first.toString ++ "` and `" ++ second.toString ++ "`"
      paths := [first.toString, second.toString]
      hints := ["Rename one of the declarations; bundled modules share one scope"] }
  | .brokenPlaceholder fault =>
    { code := Code.brokenPlaceholder, message := fault.message, paths := [], hints := [] }
  | .file path fault =>
    { code := Code.fileFault
      message := path.toString ++ ": " ++ fault.message
      paths := [path.toString]
      hints := [] }

def Problem.code (problem : Problem) : String := problem.report.code

inductive Warning where
  | moduleNotFound (specifier importer : Text)
  | cyclicDependency (importer dependency : Text)
  deriving Repr, DecidableEq

def Warning.message : Warning → String
  | .moduleNotFound specifier importer =>
    "Module not found: " ++ specifier.toString ++ " (from " ++ importer.toString ++ ")"
  | .cyclicDependency importer dependency =>
    "Cyclic dependency: " ++ importer.toString ++ " imports " ++ dependency.toString
      ++ ", which is declared later"

end ComponentBundle
