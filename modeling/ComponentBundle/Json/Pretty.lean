import ComponentBundle.Json.Value

/-!
JSON written with one member or item a line, indented by two spaces.
-/
namespace ComponentBundle.Json
open ComponentBundle.Text

def codeEscape (c : Char) : Text :=
  let n := c.toNat
  ['\\', 'u', '0', '0', Nat.digitChar (n / 16), Nat.digitChar (n % 16)]

def escapeChar (c : Char) : Text :=
  if c = '\x22' then ['\\', '\x22']
  else if c = '\\' then ['\\', '\\']
  else if c = '\x08' then ['\\', 'b']
  else if c = '\x0c' then ['\\', 'f']
  else if c = '\n' then ['\\', 'n']
  else if c = '\r' then ['\\', 'r']
  else if c = '\t' then ['\\', 't']
  else if c.toNat < 0x20 then codeEscape c
  else [c]

def quoted (t : Text) : Text := '\x22' :: (t.flatMap escapeChar ++ ['\x22'])

def lineStart (depth : Nat) : Text := '\n' :: List.replicate (2 * depth) ' '

mutual

def pretty (depth : Nat) : Json → Text
  | .null => ['n', 'u', 'l', 'l']
  | .bool true => ['t', 'r', 'u', 'e']
  | .bool false => ['f', 'a', 'l', 's', 'e']
  | .number literal => literal
  | .string text => quoted (text.getD [])
  | .array [] => ['[', ']']
  | .array (item :: items) =>
    '[' :: (lineStart (depth + 1) ++ (pretty (depth + 1) item
      ++ (prettyItems (depth + 1) items ++ (lineStart depth ++ [']']))))
  | .object [] => ['{', '}']
  | .object ((key, value) :: members) =>
    '{' :: (lineStart (depth + 1) ++ (quoted (key.getD []) ++ ([':', ' ']
      ++ (pretty (depth + 1) value ++ (prettyMembers (depth + 1) members
        ++ (lineStart depth ++ ['}']))))))

def prettyItems (depth : Nat) : List Json → Text
  | [] => []
  | item :: items => ',' :: (lineStart depth ++ (pretty depth item ++ prettyItems depth items))

def prettyMembers (depth : Nat) : List (Option Text × Json) → Text
  | [] => []
  | (key, value) :: members =>
    ',' :: (lineStart depth ++ (quoted (key.getD []) ++ ([':', ' ']
      ++ (pretty depth value ++ prettyMembers depth members))))

end

def render (value : Json) : Text := pretty 0 value

end ComponentBundle.Json
