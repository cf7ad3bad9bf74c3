import ComponentBundle.Files.Path
import ComponentBundle.Json.Record
import ComponentBundle.Project.Resolver
import ComponentBundle.Text.Blank

/-!
The settings of a bundle and the address it is served from. Every setting has a
default, so a configuration may name only some of them.
-/
namespace ComponentBundle.Project
open ComponentBundle.Text ComponentBundle.Files

inductive Mode where
  /-- One artifact with all modules that are reached. -/
  | single
  /-- Every module that is reached as a file of its own. -/
  | multi
  /-- Every component file below the module root, reached or not. -/
  | mirror
  deriving Repr, DecidableEq

def Mode.name : Mode → String
  | .single => "single"
  | .multi => "multi"
  | .mirror => "mirror"

def Mode.ofName? (name : Text) : Option Mode :=
  [Mode.single, .multi, .mirror].find? fun mode => mode.name.toList = name

def Mode.refusal (name : Text) : String :=
  "unknown bundle mode `" ++ name.toString ++ "` (expected single, multi or mirror)"

/-- A mode is a name, or an object with the name as its one member, which is null. -/
def Mode.ofJson? : Json → Option Mode
  | .string (some name) => Mode.ofName? name
  | .object [(some name, .null)] => Mode.ofName? name
  | _ => none

structure Settings where
  projectRoot : FilePath := ⟨"."⟩
  modulesRoot : FilePath := ⟨"app/components"⟩
  outputDirectory : FilePath := ⟨"public/assets/extension-files"⟩
  publicUrl : Text := "assets/extension-files"
  defaultPort : UInt16 := 4205
  extension : Text := "gjs"
  /-- What local specifiers start with; by default it follows from the package name. -/
  space : Option Text := none
  /-- The entry, in place of the one that the package names. -/
  entryPoint : Option Text := none
  mode : Mode := .single
  compact : Bool := false
  /-- The path of a single artifact, by default that of the entry. -/
  bundleFileName : Option Text := none
  packageFile : FilePath := ⟨"package.json"⟩
  deriving Repr, DecidableEq

namespace Settings

def fields : List Text :=
  ["projectRoot", "modulesRoot", "outputDir", "publicUrl", "defaultPort", "extension",
    "namespace", "entryPoint", "mode", "shrink", "bundleFileName", "packageJson"].map
      String.toList

def path? (value : Json) : Option FilePath := (Json.text? value).map FilePath.ofText

def ofJson? (value : Json) : Option Settings := do
  let values ← Json.fieldValues? fields 0 value
  let field := fun i => (values[i]?).join
  let base : Settings := {}
  return {
    projectRoot := ← Json.valueOr base.projectRoot path? (field 0)
    modulesRoot := ← Json.valueOr base.modulesRoot path? (field 1)
    outputDirectory := ← Json.valueOr base.outputDirectory path? (field 2)
    publicUrl := ← Json.valueOr base.publicUrl Json.text? (field 3)
    defaultPort := ← Json.valueOr base.defaultPort Json.word16? (field 4)
    extension := ← Json.valueOr base.extension Json.text? (field 5)
    space := ← Json.valueOr base.space (Json.optional? Json.text?) (field 6)
    entryPoint := ← Json.valueOr base.entryPoint (Json.optional? Json.text?) (field 7)
    mode := ← Json.valueOr base.mode Mode.ofJson? (field 8)
    compact := ← Json.valueOr base.compact Json.bool? (field 9)
    bundleFileName := ← Json.valueOr base.bundleFileName (Json.optional? Json.text?) (field 10)
    packageFile := ← Json.valueOr base.packageFile path? (field 11) }

def read? (t : Text) : Option Settings := (Json.read? t).bind ofJson?

def fromProject (settings : Settings) (path : FilePath) : FilePath :=
  settings.projectRoot.joined path

def modulesPath (settings : Settings) : FilePath := settings.fromProject settings.modulesRoot

def outputPath (settings : Settings) : FilePath := settings.fromProject settings.outputDirectory

def packagePath (settings : Settings) : FilePath := settings.fromProject settings.packageFile

def defaultSpace : Text := "app/components"

def spaceOf (settings : Settings) (packageName : Option Text) : Text :=
  match settings.space, packageName with
  | some space, _ => withoutSlashesBehind space
  | none, some name => if allBlank name then defaultSpace else trim name ++ "/components".toList
  | none, none => defaultSpace

end Settings

structure Address where
  secure : Bool := false
  host : Option Text := none
  port : Option UInt16 := none
  deriving Repr, DecidableEq

namespace Address

def fields : List Text := ["https", "host", "port"].map String.toList

def ofJson? (value : Json) : Option Address := do
  let values ← Json.fieldValues? fields 3 value
  let field := fun i => (values[i]?).join
  return {
    secure := ← Json.valueOr false Json.bool? (field 0)
    host := ← Json.valueOr none (Json.optional? Json.text?) (field 1)
    port := ← Json.valueOr none (Json.optional? Json.word16?) (field 2) }

def read? (t : Text) : Option Address := (Json.read? t).bind ofJson?

def localHost : Text := "localhost"

/-- A host that is missing, empty or the short loopback address is the local host. -/
def hostName (address : Address) : Text :=
  match address.host with
  | none => localHost
  | some host => if host.isEmpty || host = [':', ':', '1'] then localHost else host

def scheme (address : Address) : Text := if address.secure then "https" else "http"

def url (address : Address) (defaultPort : UInt16) : Text :=
  address.scheme ++ ([':', '/', '/'] ++ (address.hostName
    ++ ':' :: ofNat (address.port.getD defaultPort).toNat))

end Address

def Settings.initialUrl (settings : Settings) : Text := Address.url {} settings.defaultPort

end ComponentBundle.Project
