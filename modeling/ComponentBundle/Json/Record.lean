import ComponentBundle.Json.Reader
import ComponentBundle.Text.Decimal

/-!
Records in JSON: an object with the fields as members, or an array with the fields in
order. Other members are ignored, a field that stands twice is refused.
-/
namespace ComponentBundle.Json
open ComponentBundle.Text

def given (members : List (Option Text × Json)) (field : Text) : List Json :=
  (members.filter fun member => member.1 = some field).map Prod.snd

/-- The value of every field that is given. An array holds at least `least` fields. -/
def fieldValues? (fields : List Text) (least : Nat) : Json → Option (List (Option Json))
  | .object members =>
    if members.all (·.1.isSome) then
      fields.mapM fun field =>
        match given members field with
        | [] => some none
        | [value] => some (some value)
        | _ => none
    else none
  | .array items =>
    if least ≤ items.length && items.length ≤ fields.length then
      some ((List.range fields.length).map fun i => items[i]?)
    else none
  | _ => none

def valueOr {α : Type} (default : α) (read : Json → Option α) : Option Json → Option α
  | some value => read value
  | none => some default

def text? : Json → Option Text
  | .string text => text
  | _ => none

def bool? : Json → Option Bool
  | .bool value => some value
  | _ => none

def optional? {α : Type} (read : Json → Option α) : Json → Option (Option α)
  | .null => some none
  | value => (read value).map some

def word16? : Json → Option UInt16
  | .number literal =>
    (digits? literal).bind fun n => if n < 0x10000 then some (UInt16.ofNat n) else none
  | _ => none

end ComponentBundle.Json
