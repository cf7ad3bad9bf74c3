import ComponentBundle.Bundle.Identifier
import ComponentBundle.Json.Pretty
import ComponentBundle.Project.Settings

/-!
The manifest tells a host where to fetch a bundle and under which names.
-/
namespace ComponentBundle.Bundle
open ComponentBundle.Text ComponentBundle.Project ComponentBundle.Files

structure ManifestItem where
  name : Text
  url : Text
  version : Text
  kind : Text
  deriving Repr, DecidableEq

structure Manifest where
  dependencies : Option (List ManifestItem)
  main : ManifestItem
  deriving Repr, DecidableEq

def manifestFile : Text := "manifest.json"

def extensionKind : Text := "ember-extension"

structure Release where
  space : Text
  publicUrl : Text
  version : Text
  extension : Text
  mode : Mode
  deriving Repr, DecidableEq

/-- A module is named by its own path and fetched by the path of its asset. -/
structure PublishedModule where
  path : Text
  asset : Text
  deriving Repr, DecidableEq

def PublishedModule.plain (path : Text) : PublishedModule := ⟨path, path⟩

def publicName (release : Release) (path : Text) : Text :=
  let stem := (before? ('.' :: withoutDots release.extension) path).getD path
  match release.mode with
  | .mirror => ['.', slash] ++ capitalized stem
  | _ => release.space ++ slash :: stem

def joinedUrl (base publicUrl path : Text) : Text :=
  join [slash] (([base, publicUrl, path].map withoutSlashes).filter fun part => !part.isEmpty)

def Release.item (release : Release) (base : Text) (m : PublishedModule) :
    ManifestItem :=
  ⟨publicName release m.path, joinedUrl base release.publicUrl m.asset, release.version,
    extensionKind⟩

def manifest (release : Release) (base : Text) (main : PublishedModule)
    (dependencies : List PublishedModule) : Manifest :=
  { dependencies :=
      if release.mode = .single then none else some (dependencies.map (release.item base))
    main := release.item base main }

def textField (key value : Text) : Option Text × Json := (some key, .string (some value))

def ManifestItem.json (entry : ManifestItem) : Json :=
  .object [textField "name" entry.name, textField "url" entry.url,
    textField "version" entry.version, textField "type" entry.kind]

def Manifest.json (manifest : Manifest) : Json :=
  let listed := manifest.dependencies.toList.map fun entries =>
    (some "dependencies".toList, Json.array (entries.map ManifestItem.json))
  .object (listed ++ [(some "mainDependency".toList, manifest.main.json)])

def Manifest.render (manifest : Manifest) : Text := manifest.json.render

end ComponentBundle.Bundle
