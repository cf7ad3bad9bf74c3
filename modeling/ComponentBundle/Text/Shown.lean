import ComponentBundle.Text.Basic

/-!
Bytes shown as text. Where they are no UTF-8, the replacement character stands for each start of
a character that breaks off, and for each byte that starts none.
-/
namespace ComponentBundle.Text

/-- The least and the greatest byte that may stand at each place behind the first byte of a
    character. -/
def laterRanges (first : UInt8) : List (UInt8 × UInt8) :=
  let any := (0x80, 0xBF)
  if first < 0xC2 then []
  else if first < 0xE0 then [any]
  else if first = 0xE0 then [(0xA0, 0xBF), any]
  else if first = 0xED then [(0x80, 0x9F), any]
  else if first < 0xF0 then [any, any]
  else if first = 0xF0 then [(0x90, 0xBF), any, any]
  else if first < 0xF4 then [any, any, any]
  else if first = 0xF4 then [(0x80, 0x8F), any, any]
  else []

/-- How many bytes lie in the ranges for their places, up to the first one that does not. -/
def fitting : List (UInt8 × UInt8) → List UInt8 → Nat
  | (low, high) :: ranges, byte :: bytes =>
    if low ≤ byte ∧ byte ≤ high then fitting ranges bytes + 1 else 0
  | _, _ => 0

def firstChar? (bytes : List UInt8) : Option Char := bytes.toByteArray.utf8DecodeChar? 0

def replacement : Char := '\uFFFD'

def shownFrom : Nat → List UInt8 → Text
  | _, [] => []
  | skipped + 1, _ :: bytes => shownFrom skipped bytes
  | 0, first :: bytes =>
    match firstChar? (first :: bytes) with
    | some c => c :: shownFrom (c.utf8Size - 1) bytes
    | none => replacement :: shownFrom (fitting (laterRanges first) bytes) bytes

def shown (bytes : List UInt8) : Text := shownFrom 0 bytes

example : shown [0x61, 0xFF, 0xC3, 0xA9, 0xE2, 0x82, 0x2E, 0xED, 0xA0, 0x80]
    = "a\uFFFDé\uFFFD.\uFFFD\uFFFD\uFFFD" := by decide +kernel

end ComponentBundle.Text
