import ComponentBundle.Text.Basic

/-!
JSON values. Numbers keep their literal. A string has no text if one of its escapes
names half of a surrogate pair, which is no character.
-/
namespace ComponentBundle

inductive Json where
  | null
  | bool (value : Bool)
  | number (literal : Text)
  | string (text : Option Text)
  | array (items : List Json)
  | object (members : List (Option Text × Json))
  deriving Repr

end ComponentBundle
