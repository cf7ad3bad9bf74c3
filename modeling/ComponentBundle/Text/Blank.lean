import ComponentBundle.Text.Basic

/-!
White space, over all of Unicode, and the functions that trim it.
-/
namespace ComponentBundle.Text

def isBlank (c : Char) : Bool :=
  let n := c.toNat
  (0x9 ≤ n && n ≤ 0xD) || n = 0x20 || n = 0x85 || n = 0xA0 || n = 0x1680
    || (0x2000 ≤ n && n ≤ 0x200A) || n = 0x2028 || n = 0x2029 || n = 0x202F || n = 0x205F
    || n = 0x3000

def isIndent (c : Char) : Bool := c = ' ' || c = '\t'

def trimStart (t : Text) : Text := t.dropWhile isBlank

def trimEnd (t : Text) : Text := (t.reverse.dropWhile isBlank).reverse

def trim (t : Text) : Text := trimEnd (trimStart t)

def allBlank (t : Text) : Bool := t.all isBlank

def collapseBlanks : Text → Text
  | [] => []
  | c :: t =>
    if isBlank c then
      match t with
      | d :: _ => if isBlank d then collapseBlanks t else ' ' :: collapseBlanks t
      | [] => [' ']
    else c :: collapseBlanks t

end ComponentBundle.Text
