import ComponentBundle.Text.Search
import ComponentBundle.Text.Shown

/-!
Paths keep the spelling they were given. What they are made of is a list of parts, in
which doubled slashes, slashes at the end and dots in the middle do not show. Spellings are
bytes: a text stands for its own in UTF-8, and not all that there are come from a text.
-/
namespace ComponentBundle.Files
open ComponentBundle.Text

abbrev Name := List UInt8

instance : Coe Text Name := ⟨Text.bytes⟩

structure FilePath where
  spelling : Name
  deriving Repr, DecidableEq

inductive FilePath.Part where
  | root
  | here
  | up
  | name (name : Name)
  deriving Repr, DecidableEq

def slash : Char := '/'

def slashByte : UInt8 := slash.toUInt8

def dotByte : UInt8 := '.'.toUInt8

def dot : Name := [dotByte]

def dotDot : Name := [dotByte, dotByte]

namespace FilePath

def ofText (t : Text) : FilePath := ⟨t⟩

def shown (path : FilePath) : Text := Text.shown path.spelling

def isAbsolute (path : FilePath) : Bool := path.spelling.head? = some slashByte

def pieces (path : FilePath) : List Name := splitOn slashByte path.spelling

/-- What a piece between two slashes stands for; an empty one and a dot stand for nothing. -/
def part? (piece : Name) : Option Part :=
  if piece.isEmpty || piece = dot then none
  else if piece = dotDot then some .up
  else some (.name piece)

/-- A path that is not absolute may start with a dot, which is then a part of it. -/
def leading (path : FilePath) : List Part :=
  if path.isAbsolute then [.root] else if path.pieces.head? = some dot then [.here] else []

def parts (path : FilePath) : List Part := path.leading ++ path.pieces.filterMap part?

def same (a b : FilePath) : Bool := a.parts = b.parts

def startsWith (path start : FilePath) : Bool := start.parts.isPrefixOf path.parts

/-- A relative path is put behind a slash, an absolute one takes the place of the first. -/
def joined (a b : FilePath) : FilePath :=
  if b.isAbsolute then b
  else if a.spelling.isEmpty || a.spelling.getLast? = some slashByte then
    ⟨a.spelling ++ b.spelling⟩
  else ⟨a.spelling ++ slashByte :: b.spelling⟩

def fileName? (path : FilePath) : Option Name :=
  match path.parts.getLast? with
  | some (.name name) => some name
  | _ => none

/-- What follows the last dot of the file name, unless the name only starts with it. -/
def extension? (path : FilePath) : Option Name := do
  let name ← path.fileName?
  let (stem, rest) ← splitLast? dotByte name
  if stem.isEmpty then none else return rest

def trimPieces (pieces : List Name) : List Name :=
  (pieces.reverse.dropWhile fun piece => (part? piece).isNone).reverse

def parent? (path : FilePath) : Option FilePath :=
  let led := !path.leading.isEmpty
  let start := if led then path.pieces.take 1 else []
  match trimPieces (if led then path.pieces.drop 1 else path.pieces) with
  | [] => if path.leading = [.here] then some ⟨[]⟩ else none
  | body =>
    let rest := trimPieces body.dropLast
    if path.isAbsolute && rest.isEmpty then some ⟨[slashByte]⟩
    else some ⟨[slashByte].intercalate (start ++ rest)⟩

def withFileName (path : FilePath) (name : Name) : FilePath :=
  match path.fileName?, path.parent? with
  | some _, some parent => parent.joined ⟨name⟩
  | _, _ => path.joined ⟨name⟩

def ancestors (path : FilePath) : List FilePath := go path.spelling.length path
where
  go : Nat → FilePath → List FilePath
    | 0, path => [path]
    | steps + 1, path =>
      match path.parent? with
      | some parent => path :: go steps parent
      | none => [path]

end FilePath

end ComponentBundle.Files
