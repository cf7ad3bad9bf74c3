import ComponentBundle.Problem
import ComponentBundle.Text.Capital
import ComponentBundle.Text.Search

/-!
The identifier of a module is derived from its path: separators go and the part after
each starts with a capital. Paths may collide, so identifiers are given to all modules
together; two that differ only in the case of ASCII letters collide as well.
-/
namespace ComponentBundle.Bundle
open ComponentBundle.Text

def capitalized : Text → Text
  | [] => []
  | c :: t => upper c ++ t

def isDirectoryMark (c : Char) : Bool := c = '/' || c = '\\'

def isPathMark (c : Char) : Bool := isDirectoryMark c || c = '-'

def isIdentifierChar (c : Char) : Bool := c.isAlphanum || c = '_' || c = '$'

/-- A path without the extension of its last part. A part that only starts with a dot has
    no extension. -/
def withoutExtension (path : Text) : Text :=
  let file := (path.reverse.takeWhile fun c => !isDirectoryMark c).reverse
  match splitLast? '.' file with
  | some (stem, _) => if stem.isEmpty then path else path.take (path.length - file.length) ++ stem
  | none => path

def identifierOf (path : Text) : Text :=
  let parts := (splitWhere isPathMark (withoutExtension path)).filter fun part => !part.isEmpty
  let name := (parts.flatMap capitalized).map fun c => if isIdentifierChar c then c else '_'
  match name with
  | [] => ['_']
  | c :: _ => if c.isDigit then '_' :: name else name

def identifierKey (identifier : Text) : Text := identifier.map Char.toLower

/-- Here `owners` holds the keys already given, with the paths that have them. -/
def distinctFrom (reserved owners : List (Text × Text)) :
    List Text → Except Problem (List Text)
  | [] => .ok []
  | path :: more =>
    let identifier := identifierOf path
    match reserved.lookup identifier with
    | some origin => .error (.namingCollision identifier origin path)
    | none =>
      match owners.lookup (identifierKey identifier) with
      | some first => .error (.namingCollision identifier first path)
      | none =>
        (distinctFrom reserved ((identifierKey identifier, path) :: owners) more).map
          (identifier :: ·)

/-- The identifiers of all paths in order, or the first collision with a reserved name,
    which has an origin, or with the path of another module. -/
def distinctIdentifiers (reserved : List (Text × Text)) (paths : List Text) :
    Except Problem (List Text) := distinctFrom reserved [] paths

end ComponentBundle.Bundle
