import ComponentBundle.Source.Lookup

/-!
Specifiers name the modules of a project. One is local if it is relative or lies in
the project's namespace.
-/
namespace ComponentBundle.Module
open ComponentBundle.Text ComponentBundle.Source

def isLocal (space specifier : Text) : Bool :=
  startsWith specifier ['.', '/'] || ((after? space specifier).bind List.head?) = some '/'

structure PlacedSpecifier where
  start : Nat
  stop : Nat
  specifier : Text
  deriving Repr, DecidableEq

def isSpecifierChar (c : Char) : Bool := isNameChar c || c = '/' || c = '.' || c = '-' || c = '@'

/-- The places of a specifier that are no part of a longer one and that no span shields. -/
def specifierPlaces (spans : List Span) (specifier text : Text) : List PlacedSpecifier :=
  ((occurrences specifier text).filter fun place =>
    !place.previous.any isSpecifierChar && !place.next.any isSpecifierChar
      && !(kindAt? spans place.start).any SpanKind.hidesSpecifiers).map
    fun place => ⟨place.start, place.start + width specifier, specifier⟩

end ComponentBundle.Module
