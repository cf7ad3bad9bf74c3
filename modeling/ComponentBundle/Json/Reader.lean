import ComponentBundle.Json.Token

/-!
Reading JSON. Values that are not finished wait on a stack, so any depth is read.
-/
namespace ComponentBundle.Json
open ComponentBundle.Text

/-- An array or object that is not finished, with what it holds so far in reverse order.
    An object waits for the value of a key. -/
inductive Frame where
  | array (items : List Json)
  | object (members : List (Option Text × Json)) (key : Option Text)
  deriving Repr

def readFrom (value : Option Json) (stack : List Frame) (tokens : List Token) : Option Json :=
  match value, stack, tokens with
  | some value, [], [] => some value
  | some value, .array items :: outer, .comma :: more =>
    readFrom none (.array (value :: items) :: outer) more
  | some value, .array items :: outer, .bracketClose :: more =>
    readFrom (some (.array (value :: items).reverse)) outer more
  | some value, .object members key :: outer, .comma :: .string next :: .colon :: more =>
    readFrom none (.object ((key, value) :: members) next :: outer) more
  | some value, .object members key :: outer, .braceClose :: more =>
    readFrom (some (.object ((key, value) :: members).reverse)) outer more
  | none, stack, .word value :: more => readFrom (some value) stack more
  | none, stack, .string text :: more => readFrom (some (.string text)) stack more
  | none, stack, .bracketOpen :: .bracketClose :: more => readFrom (some (.array [])) stack more
  | none, stack, .bracketOpen :: more => readFrom none (.array [] :: stack) more
  | none, stack, .braceOpen :: .braceClose :: more => readFrom (some (.object [])) stack more
  | none, stack, .braceOpen :: .string key :: .colon :: more =>
    readFrom none (.object [] key :: stack) more
  | _, _, _ => none
termination_by tokens.length

def read? (t : Text) : Option Json := (tokens? t).bind (readFrom none [])

end ComponentBundle.Json
