import ComponentBundle.Text.Basic

/-!
Terminal control. Control characters, and the sequences that an escape character begins,
move the cursor or set colours and show nothing. `visible` is what is left of a text when
they are taken out; a text without control characters stays as it is.
-/
namespace ComponentBundle.Text

def isControl (c : Char) : Bool := c.toNat < 0x20 || c = '\x7f'

def isLayout (c : Char) : Bool := c = '\t' || c = '\n' || c = '\x0c' || c = '\r'

inductive ControlState where
  | text
  | escape
  /-- An escape sequence behind its first character. -/
  | shift
  /-- Parameters and a final letter. -/
  | parameters
  /-- The parameters in front of a string for a device. -/
  | device
  /-- A string that a bell ends. -/
  | command
  /-- Any other string. -/
  | string
  deriving Repr, DecidableEq

def between (first last : Char) (c : Char) : Bool := first ≤ c && c ≤ last

def endsString (c : Char) : Bool :=
  0x80 ≤ c.toNat && (String.utf8EncodeChar c).contains 0x9C

def ControlState.next (state : ControlState) (c : Char) : ControlState :=
  if c = '\x1b' then .escape
  else if c = '\x18' || c = '\x1a' then .text
  else
    match state with
    | .text => .text
    | .escape =>
      if between ' ' '/' c then .shift
      else if c = '[' then .parameters
      else if c = ']' then .command
      else if c = 'P' then .device
      else if c = 'X' || c = '^' || c = '_' then .string
      else if between '0' '~' c then .text
      else .escape
    | .shift => if between '0' '~' c then .text else .shift
    | .parameters => if between '@' '~' c then .text else .parameters
    | .device => if between '@' '~' c then .string else .device
    | .command => if c = '\x07' then .text else .command
    | .string => if endsString c then .text else .string

def ControlState.showsLayout : ControlState → Bool
  | .text | .escape | .shift | .parameters => true
  | .device | .command | .string => false

/-- What is shown from a state on. Behind a shown character all is shown up to the next
control, which goes on with the sequence that was left. -/
def visibleFrom (state : ControlState) (shown : Bool) : Text → Text
  | [] => []
  | c :: t =>
    if isControl c && !isLayout c then visibleFrom (state.next c) false t
    else if shown || state = .text || (isLayout c && state.showsLayout) then
      c :: visibleFrom (if c.toNat < 0x80 then state else .text) true t
    else visibleFrom (state.next c) false t

def visible (t : Text) : Text := visibleFrom .text true t

end ComponentBundle.Text
