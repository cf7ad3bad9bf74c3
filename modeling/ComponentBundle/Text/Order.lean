import ComponentBundle.Text.Basic

/-!
The order of texts, of bytes, and of lists of names: what counts is the first place where two
differ, and a list that ends there comes first.
-/
namespace ComponentBundle.Text

def notAfterBy {α : Type} [DecidableEq α] (notAfter : α → α → Bool) : List α → List α → Bool
  | [], _ => true
  | _ :: _, [] => false
  | a :: s, b :: t => if a = b then notAfterBy notAfter s t else notAfter a b

/-- Characters are ordered by code point, so texts are ordered as their bytes are. -/
def notAfter : Text → Text → Bool := notAfterBy fun a b => decide (a.toNat ≤ b.toNat)

def bytesNotAfter : List UInt8 → List UInt8 → Bool := notAfterBy fun a b => decide (a ≤ b)

def namesNotAfter : List (List UInt8) → List (List UInt8) → Bool := notAfterBy bytesNotAfter

end ComponentBundle.Text
