/-!
Text is a list of characters. Its width is its length in UTF-8, and every position
that the library reports is a width: the number of bytes that stand before it.
-/
namespace ComponentBundle

abbrev Text := List Char

instance : Coe String Text := ⟨String.toList⟩

namespace Text

def toString (t : Text) : String := String.ofList t

def width : Text → Nat
  | [] => 0
  | c :: t => c.utf8Size + width t

@[simp] theorem width_nil : width [] = 0 := rfl

@[simp] theorem width_cons (c : Char) (t : Text) : width (c :: t) = c.utf8Size + width t := rfl

@[simp] theorem width_append (a b : Text) : width (a ++ b) = width a + width b := by
  induction a with
  | nil => simp
  | cons c a ih => simp [ih, Nat.add_assoc]

theorem width_le_append (a b : Text) : width a ≤ width (a ++ b) := by
  rw [width_append]
  exact Nat.le_add_right ..

def dropWidth : Nat → Text → Text
  | _, [] => []
  | n, c :: t => if n = 0 then c :: t else dropWidth (n - c.utf8Size) t

def takeWidth : Nat → Text → Text
  | _, [] => []
  | n, c :: t => if n = 0 then [] else c :: takeWidth (n - c.utf8Size) t

@[simp] theorem dropWidth_zero (t : Text) : dropWidth 0 t = t := by
  cases t <;> simp [dropWidth]

@[simp] theorem takeWidth_zero (t : Text) : takeWidth 0 t = [] := by
  cases t <;> simp [takeWidth]

theorem dropWidth_width_append (a b : Text) : dropWidth (width a) (a ++ b) = b := by
  induction a with
  | nil => simp
  | cons c a ih =>
    have positive := c.utf8Size_pos
    have nonzero : c.utf8Size + width a ≠ 0 := by omega
    rw [List.cons_append, width_cons, dropWidth, if_neg nonzero, Nat.add_sub_cancel_left, ih]

theorem takeWidth_width_append (a b : Text) : takeWidth (width a) (a ++ b) = a := by
  induction a with
  | nil => simp
  | cons c a ih =>
    have positive := c.utf8Size_pos
    have nonzero : c.utf8Size + width a ≠ 0 := by omega
    rw [List.cons_append, width_cons, takeWidth, if_neg nonzero, Nat.add_sub_cancel_left, ih]

def slice (t : Text) (start stop : Nat) : Text := takeWidth (stop - start) (dropWidth start t)

theorem slice_middle (a b c : Text) :
    slice (a ++ (b ++ c)) (width a) (width a + width b) = b := by
  simp [slice, dropWidth_width_append, takeWidth_width_append]

def bytes (t : Text) : List UInt8 := t.flatMap String.utf8EncodeChar

end Text

end ComponentBundle
