import ComponentBundle.Bundle.Publication

/-!
Following a host: on every event the project is compiled again and published.
-/
namespace ComponentBundle.Bundle
open ComponentBundle.Text ComponentBundle.Files ComponentBundle.Project

/-- What a session works on: a state that holds a tree to read and takes assets. -/
structure Host (σ : Type) where
  tree : σ → FileTree
  sink : Sink σ

def directoryHost (output : FilePath) : Host FileTree := ⟨id, directorySink output⟩

structure Shelf where
  tree : FileTree
  assets : List Asset

def shelfHost : Host Shelf :=
  ⟨Shelf.tree, fun asset shelf => (.ok (), { shelf with assets := shelf.assets ++ [asset] })⟩

structure Session where
  settings : Settings
  baseUrl : Text
  last : Option Compilation
  deriving Repr, DecidableEq

def Session.of (settings : Settings) : Session := ⟨settings, settings.initialUrl, none⟩

inductive Event where
  | started
  | listening (address : Address)
  | changed (path : FilePath)
  deriving Repr, DecidableEq

inductive Outcome where
  | compiled (compilation : Compilation)
  | failed (problem : Problem)
  | ignored
  deriving Repr, DecidableEq

/-- Whether a path lies below the module root, by its spelling, or else by where its
    directory is. A file that is gone has no place of its own, but often its directory has. -/
def concerns (tree : FileTree) (settings : Settings) (path : FilePath) : Bool :=
  let root := settings.modulesPath
  path.startsWith root ||
    match tree.locate root, path.parent?.map tree.locate with
    | .ok rootKey, some (.ok directory) => rootKey.isPrefixOf directory
    | _, _ => false

/-- Compiles and publishes. A compilation counts as the last one only if both succeed. -/
def recompile {σ : Type} (host : Host σ) (session : Session) (state : σ) : Outcome × Session × σ :=
  let tree := host.tree state
  let package := Package.read tree session.settings.packagePath
  match compile tree session.settings package session.baseUrl with
  | .error problem => (.failed problem, session, state)
  | .ok compilation =>
    match publish host.sink compilation state with
    | (.error problem, state) => (.failed problem, session, state)
    | (.ok (), state) => (.compiled compilation, { session with last := some compilation }, state)

def handle {σ : Type} (host : Host σ) (event : Event) (session : Session) (state : σ) :
    Outcome × Session × σ :=
  match event with
  | .started => recompile host session state
  | .listening address =>
    recompile host { session with baseUrl := address.url session.settings.defaultPort } state
  | .changed path =>
    if concerns (host.tree state) session.settings path then recompile host session state
    else (.ignored, session, state)

end ComponentBundle.Bundle
