import ComponentBundle.Text.Basic

/-!
Decimal numerals. Reading allows leading zeros and one plus sign.
-/
namespace ComponentBundle.Text

def ofNat (n : Nat) : Text := Nat.toDigits 10 n

def digit? (c : Char) : Option Nat := if c.isDigit then some (c.toNat - '0'.toNat) else none

def digitsValue? (value : Nat) : Text → Option Nat
  | [] => some value
  | c :: t => (digit? c).bind fun d => digitsValue? (10 * value + d) t

def digits? (t : Text) : Option Nat := if t.isEmpty then none else digitsValue? 0 t

def natural? (t : Text) : Option Nat :=
  match t with
  | '+' :: rest => digits? rest
  | _ => digits? t

end ComponentBundle.Text
