import ComponentBundle.Files.Tree
import ComponentBundle.Problem

/-!
Specifiers are resolved to component files below the module root, first to a file of
that name and then to the index file of that directory.
-/
namespace ComponentBundle.Project
open ComponentBundle.Text ComponentBundle.Files

/-- Where a component file is: its path, and the same relative to the module root. -/
structure Location where
  path : FilePath
  relative : Text
  deriving Repr, DecidableEq

structure Component where
  location : Location
  source : Text
  deriving Repr, DecidableEq

structure Resolver where
  root : FilePath
  space : Text
  extension : Text
  deriving Repr, DecidableEq

def withoutSlashesBehind (t : Text) : Text := (t.reverse.dropWhile (· = slash)).reverse

def withoutSlashes (t : Text) : Text := withoutSlashesBehind (t.dropWhile (· = slash))

def withoutDots (t : Text) : Text := t.dropWhile (· = '.')

namespace Resolver

/-- A namespace is given with slashes behind it or without, an extension with dots before
    it or without. -/
def of (root : FilePath) (space extension : Text) : Resolver :=
  ⟨root, withoutSlashesBehind space, withoutDots extension⟩

def ending (resolver : Resolver) : Text := '.' :: resolver.extension

def withoutEnding (resolver : Resolver) (path : Text) : Text :=
  (before? resolver.ending path).getD path

/-- What a specifier says besides the namespace or the dot that it starts with. -/
def unqualified (resolver : Resolver) (specifier : Text) : Text :=
  let relative := (after? ['.', slash] specifier).getD specifier
  match after? resolver.space specifier with
  | some rest => if rest.head? = some slash then rest else relative
  | none => relative

def isName (part : FilePath.Part) : Bool :=
  match part with
  | .name _ => true
  | _ => false

/-- The path below the module root that a specifier names, without its ending. Paths that
    might lead out of the root are refused. -/
def pathBelowRoot? (resolver : Resolver) (specifier : Text) : Option Text :=
  let path := resolver.withoutEnding (withoutSlashes (resolver.unqualified specifier))
  if path.isEmpty || !(FilePath.mk path).parts.all isName then none else some path

def indexName : Text := ['/', 'i', 'n', 'd', 'e', 'x']

def candidates (resolver : Resolver) (path : Text) : List Text :=
  [path ++ resolver.ending, path ++ (indexName ++ resolver.ending)]

def locate (resolver : Resolver) (relative : Text) : Location :=
  ⟨resolver.root.joined ⟨relative⟩, relative⟩

def resolve (resolver : Resolver) (tree : FileTree) (specifier : Text) : Option Location :=
  (resolver.pathBelowRoot? specifier).bind fun path =>
    ((resolver.candidates path).map resolver.locate).find? fun location =>
      tree.isFile location.path

theorem resolve_isFile {resolver : Resolver} {tree : FileTree} {specifier : Text}
    {location : Location} (h : resolver.resolve tree specifier = some location) :
    tree.isFile location.path = true := by
  obtain ⟨path, -, found⟩ := Option.bind_eq_some_iff.1 h
  simpa using List.find?_some found

/-- The specifiers that name a module for sure: with its ending and without, and an index
    file by its directory. -/
def ownSpecifiers (resolver : Resolver) (relative : Text) : List Text :=
  let stem := resolver.withoutEnding relative
  let qualified := fun path => resolver.space ++ slash :: path
  [qualified stem, qualified relative] ++ ((before? indexName stem).map qualified).toList

end Resolver

def readComponent (tree : FileTree) (location : Location) : Except Problem Component :=
  match tree.readText location.path with
  | .ok source => .ok ⟨location, source⟩
  | .error fault => .error (.file location.path.shown fault)

end ComponentBundle.Project
