import ComponentBundle.Files.Tree

/-!
Changes to a tree. A change that is refused may have been carried out in part, so
each one gives the tree that it leaves together with its outcome.
-/
namespace ComponentBundle.Files
open ComponentBundle.Text

abbrev Change := FileTree → Except Fault Unit × FileTree

/-- The place that a path names in a directory: the directory, the last piece of the
    path, and whether slashes follow it. -/
structure Place where
  directory : Key
  last : Name
  slashed : Bool
  deriving Repr, DecidableEq

def FileTree.place? (tree : FileTree) (path : FilePath) : Except Fault (Option Place) :=
  if path.spelling.isEmpty then .error .notFound
  else
    let given := (path.pieces.reverse.dropWhile List.isEmpty).reverse
    match given.getLast? with
    | none => .ok none
    | some last => do
      let directory ← tree.follow (tree.start path) given.dropLast
      match tree.node? directory with
      | some .directory => return some ⟨directory, last, given.length < path.pieces.length⟩
      | _ => throw .notADirectory

def Place.name? (place : Place) : Option Name :=
  match FilePath.part? place.last with
  | some (.name name) => some name
  | _ => none

def makeDirectory (path : FilePath) : Change := fun tree =>
  match tree.place? path with
  | .error fault => (.error fault, tree)
  | .ok none => (.error .alreadyExists, tree)
  | .ok (some place) =>
    match place.name? with
    | none => (.error .alreadyExists, tree)
    | some name =>
      let key := place.directory ++ [name]
      if (tree.node? key).isSome then (.error .alreadyExists, tree)
      else (.ok (), tree.put key .directory)

/-- Makes the first of some ancestors, and those it needs, the nearest first. -/
def makeAncestors : List FilePath → Change
  | [], tree => (.ok (), tree)
  | path :: above, tree =>
    if path.spelling.isEmpty then (.ok (), tree)
    else
      match makeDirectory path tree with
      | (.ok (), made) => (.ok (), made)
      | (.error .notFound, _) =>
        match makeAncestors above tree with
        | (.error fault, made) => (.error fault, made)
        | (.ok (), made) =>
          match makeDirectory path made with
          | (.ok (), whole) => (.ok (), whole)
          | (.error fault, _) => (if made.isDirectory path then .ok () else .error fault, made)
      | (.error fault, _) => (if tree.isDirectory path then .ok () else .error fault, tree)

def makeDirectories (path : FilePath) : Change := makeAncestors path.ancestors

def writeFile (path : FilePath) (content : Content) : Change := fun tree =>
  match tree.place? path with
  | .error fault => (.error fault, tree)
  | .ok none => (.error .isADirectory, tree)
  | .ok (some place) =>
    match place.name? with
    | none => (.error .isADirectory, tree)
    | some name =>
      let key := place.directory ++ [name]
      if place.slashed || tree.node? key = some .directory then (.error .isADirectory, tree)
      else (.ok (), tree.put key (.file content))

def moveFile (source target : FilePath) : Change := fun tree =>
  match tree.locate source, tree.place? target with
  | .error fault, _ => (.error fault, tree)
  | _, .error fault => (.error fault, tree)
  | .ok _, .ok none => (.error .busy, tree)
  | .ok old, .ok (some place) =>
    match place.name?, tree.node? old with
    | none, _ => (.error .busy, tree)
    | some name, some node =>
      let key := place.directory ++ [name]
      if place.slashed then (.error .notADirectory, tree)
      else if tree.node? key = some .directory then (.error .isADirectory, tree)
      else (.ok (), (tree.without (· = old)).put key node)
    | some _, none => (.error .notFound, tree)

def removeFile (path : FilePath) : Change := fun tree =>
  match tree.locate path with
  | .error fault => (.error fault, tree)
  | .ok key =>
    match tree.node? key with
    | some (.file _) => (.ok (), tree.without (· = key))
    | _ => (.error .isADirectory, tree)

/-- Removes a node with everything below it, and says whether there was one. -/
def removeAll (path : FilePath) (tree : FileTree) : Bool × FileTree :=
  match tree.locate path with
  | .error _ => (false, tree)
  | .ok key => (true, tree.without fun other => key.isPrefixOf other)

end ComponentBundle.Files
