import ComponentBundle.Bundle.Compact
import ComponentBundle.Bundle.Linking
import ComponentBundle.Bundle.Manifest
import ComponentBundle.Project.Discovery
import ComponentBundle.Project.Package

/-!
Compiling a project: the manifest and the assets that it tells of, all computed before
anything is written.
-/
namespace ComponentBundle.Bundle
open ComponentBundle.Text ComponentBundle.Files ComponentBundle.Project

structure Asset where
  path : Text
  contents : Text
  deriving Repr, DecidableEq

structure Compilation where
  manifest : Manifest
  assets : List Asset
  warnings : List Warning
  /-- The relative paths of the modules that went in. -/
  modules : List Text
  deriving Repr, DecidableEq

structure Plan where
  resolver : Resolver
  entry : Location
  base : Text
  release : Release
  deriving Repr, DecidableEq

def Component.asset (component : Component) : Asset :=
  ⟨component.location.relative, component.source⟩

def compileLinked (tree : FileTree) (settings : Settings) (plan : Plan) :
    Except Problem Compilation := do
  let graph ← reach plan.resolver tree plan.entry
  let artifact ← link graph plan.resolver.space
  let contents ← if settings.compact then compact artifact.render else .ok artifact.render
  let path := settings.bundleFileName.getD plan.entry.relative
  return {
    manifest := manifest plan.release plan.base ⟨plan.entry.relative, path⟩ []
    assets := [⟨path, contents⟩]
    warnings := graph.warnings
    modules := graph.relatives }

def compileReached (tree : FileTree) (plan : Plan) : Except Problem Compilation := do
  let graph ← reach plan.resolver tree plan.entry
  return {
    manifest := manifest plan.release plan.base (.plain plan.entry.relative)
      (graph.dependencies.map fun node => .plain node.relative)
    assets := graph.modules.map fun node => Component.asset node.component
    warnings := graph.warnings
    modules := graph.relatives }

def compileListed (tree : FileTree) (plan : Plan) : Except Problem Compilation := do
  let files := componentFiles tree plan.resolver.root plan.resolver.extension
  if !files.any fun file => file.relative = plan.entry.relative then
    throw (.moduleNotFound plan.entry.relative plan.resolver.root.shown)
  let components ← files.mapM (readComponent tree)
  let relatives := components.map (·.location.relative)
  return {
    manifest := manifest plan.release plan.base (.plain plan.entry.relative)
      ((relatives.filter fun path => path ≠ plan.entry.relative).map .plain)
    assets := components.map Component.asset
    warnings := []
    modules := relatives }

/-- The entry from the settings, if they name one, or else from the package. -/
def entrySpecifier? (settings : Settings) (package : Package) : Option Text :=
  (settings.entryPoint.filter fun entry => !allBlank entry).or package.entryPoint?

def plan (tree : FileTree) (settings : Settings) (package : Package) (base : Text) :
    Except Problem Plan :=
  match entrySpecifier? settings package with
  | none => .error (.noEntryPoint settings.packagePath.shown)
  | some specifier =>
    let space := settings.spaceOf package.name
    let resolver := Resolver.of settings.modulesPath space settings.extension
    match resolver.resolve tree specifier with
    | none => .error (.moduleNotFound specifier settings.modulesPath.shown)
    | some entry =>
      .ok { resolver, entry, base
            release :=
              { space, publicUrl := settings.publicUrl, version := package.versionText
                extension := resolver.extension, mode := settings.mode } }

def compile (tree : FileTree) (settings : Settings) (package : Package) (base : Text) :
    Except Problem Compilation := do
  let plan ← plan tree settings package base
  match settings.mode with
  | .single => compileLinked tree settings plan
  | .multi => compileReached tree plan
  | .mirror => compileListed tree plan

end ComponentBundle.Bundle
