import ComponentBundle.Json.Value
import ComponentBundle.Text.Search

/-!
The tokens of a JSON text.
-/
namespace ComponentBundle.Json
open ComponentBundle.Text

inductive Token where
  | braceOpen
  | braceClose
  | bracketOpen
  | bracketClose
  | colon
  | comma
  | word (value : Json)
  | string (text : Option Text)
  deriving Repr

def isSpace (c : Char) : Bool := c = ' ' || c = '\t' || c = '\n' || c = '\r'

/-- What a string literal is made of: characters, and UTF-16 units from escapes. -/
inductive StringPart where
  | char (c : Char)
  | unit (code : Nat)
  deriving Repr, DecidableEq

def hexValue? (c : Char) : Option Nat :=
  if c.isDigit then some (c.toNat - '0'.toNat)
  else if 'a' ≤ c && c ≤ 'f' then some (c.toNat - 'a'.toNat + 10)
  else if 'A' ≤ c && c ≤ 'F' then some (c.toNat - 'A'.toNat + 10)
  else none

def unit? (t : Text) : Option Nat :=
  if t.length = 4 then
    t.foldl (fun code c => code.bind fun code => (hexValue? c).map (16 * code + ·)) (some 0)
  else none

def shortEscape? (c : Char) : Option Char :=
  ([('\x22', '\x22'), ('\\', '\\'), ('/', '/'), ('b', '\x08'), ('f', '\x0c'), ('n', '\n'),
    ('r', '\r'), ('t', '\t')] : List (Char × Char)).lookup c

def stringParts? : Text → Option (List StringPart × Text)
  | [] => none
  | c :: t =>
    if c = '\x22' then some ([], t)
    else if c = '\\' then
      match t with
      | [] => none
      | e :: u =>
        if e = 'u' then
          match unit? (u.take 4) with
          | some code =>
            (stringParts? (u.drop 4)).map fun (parts, rest) => (.unit code :: parts, rest)
          | none => none
        else
          match shortEscape? e with
          | some d => (stringParts? u).map fun (parts, rest) => (.char d :: parts, rest)
          | none => none
    else if c.toNat < 0x20 then none
    else (stringParts? t).map fun (parts, rest) => (.char c :: parts, rest)
termination_by t => t.length
decreasing_by all_goals (simp; try omega)

def isHighHalf (code : Nat) : Bool := 0xD800 ≤ code && code < 0xDC00

def isLowHalf (code : Nat) : Bool := 0xDC00 ≤ code && code < 0xE000

def pairChar (high low : Nat) : Char :=
  Char.ofNat (0x10000 + (high - 0xD800) * 0x400 + (low - 0xDC00))

/-- The text of a string literal, if every unit is a character or half of a pair. -/
def textOf? : List StringPart → Option Text
  | [] => some []
  | .char c :: more => (textOf? more).map (c :: ·)
  | [.unit code] =>
    if isHighHalf code || isLowHalf code then none else some [Char.ofNat code]
  | .unit code :: .char c :: more =>
    if isHighHalf code || isLowHalf code then none
    else (textOf? (.char c :: more)).map (Char.ofNat code :: ·)
  | .unit code :: .unit low :: more =>
    if isHighHalf code then
      if isLowHalf low then (textOf? more).map (pairChar code low :: ·) else none
    else if isLowHalf code then none
    else (textOf? (.unit low :: more)).map (Char.ofNat code :: ·)

def digits (t : Text) : Text × Text := (t.takeWhile Char.isDigit, t.dropWhile Char.isDigit)

def someDigits? (t : Text) : Option (Text × Text) :=
  if (digits t).1.isEmpty then none else some (digits t)

def wholePart? (t : Text) : Option (Text × Text) :=
  match t with
  | '0' :: rest => some (['0'], rest)
  | _ => someDigits? t

def fraction? (t : Text) : Option (Text × Text) :=
  match t with
  | '.' :: rest => (someDigits? rest).map fun (ds, rest) => ('.' :: ds, rest)
  | _ => some ([], t)

def exponent? (t : Text) : Option (Text × Text) :=
  match t with
  | [] => some ([], [])
  | e :: rest =>
    if e = 'e' || e = 'E' then
      let signed := rest.head?.any fun c => c = '+' || c = '-'
      let sign := if signed then rest.take 1 else []
      (someDigits? (if signed then rest.drop 1 else rest)).map fun (ds, rest) =>
        (e :: (sign ++ ds), rest)
    else some ([], t)

def number? (t : Text) : Option (Text × Text) := do
  let (sign, t) := if t.head? = some '-' then (['-'], t.drop 1) else ([], t)
  let (whole, t) ← wholePart? t
  let (part, t) ← fraction? t
  let (power, t) ← exponent? t
  return (sign ++ (whole ++ (part ++ power)), t)

def word? (t : Text) : Option (Token × Text) :=
  let words : List (String × Json) :=
    [("null", .null), ("true", .bool true), ("false", .bool false)]
  words.findSome? fun (word, value) => (after? word.toList t).map fun rest => (.word value, rest)

def token? (c : Char) (t : Text) : Option (Token × Text) :=
  if c = '{' then some (.braceOpen, t)
  else if c = '}' then some (.braceClose, t)
  else if c = '[' then some (.bracketOpen, t)
  else if c = ']' then some (.bracketClose, t)
  else if c = ':' then some (.colon, t)
  else if c = ',' then some (.comma, t)
  else if c = '\x22' then (stringParts? t).map fun (parts, rest) => (.string (textOf? parts), rest)
  else if c = '-' || c.isDigit then
    (number? (c :: t)).map fun (literal, rest) => (.word (.number literal), rest)
  else word? (c :: t)

def tokens? : Text → Option (List Token)
  | [] => some []
  | c :: t =>
    if isSpace c then tokens? t
    else
      match token? c t with
      | none => none
      | some (token, rest) =>
        if rest.length ≤ t.length then (tokens? rest).map (token :: ·) else none
termination_by t => t.length
decreasing_by all_goals (simp; try omega)

end ComponentBundle.Json
