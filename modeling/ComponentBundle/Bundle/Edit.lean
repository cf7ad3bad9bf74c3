import ComponentBundle.Text.Basic

/-!
Edits replace ranges of a text. Where ranges overlap, the earliest one counts, and of
those that start together the longest.
-/
namespace ComponentBundle.Bundle
open ComponentBundle.Text

structure Edit where
  start : Nat
  stop : Nat
  text : Text
  deriving Repr, DecidableEq

def Edit.precedes (a b : Edit) : Bool :=
  a.start < b.start || (a.start = b.start && b.stop ≤ a.stop)

def keptFrom (cursor : Nat) : List Edit → List Edit
  | [] => []
  | edit :: more =>
    if edit.start < cursor then keptFrom cursor more else edit :: keptFrom edit.stop more

def kept (edits : List Edit) : List Edit := keptFrom 0 (edits.mergeSort Edit.precedes)

/-- Carries out disjoint edits in order; everything between them is copied. -/
def applyFrom (text : Text) (cursor : Nat) : List Edit → Text
  | [] => dropWidth cursor text
  | edit :: more =>
    slice text cursor edit.start ++ (edit.text ++ applyFrom text edit.stop more)

def applyEdits (text : Text) (edits : List Edit) : Text := applyFrom text 0 (kept edits)

end ComponentBundle.Bundle
