import ComponentBundle.Bundle.Placeholder
import ComponentBundle.Text.Blank

/-!
Compacting an artifact. Comments and needless white space go, also line ends, so
statements have to end explicitly; protected spans stay as they are.
-/
namespace ComponentBundle.Bundle
open ComponentBundle.Text ComponentBundle.Source

def withoutBlankLines (t : Text) : Text :=
  join ['\n'] ((lines t).filter fun line => !allBlank line)

def isTight (c : Char) : Bool :=
  ['=', '<', '>', '!', '+', '-', '*', '/', '%', ',', '(', ')', '[', ']', '{', '}'].contains c

def isFusing (c : Char) : Bool := c = '+' || c = '-' || c = '/'

/-- Drops spaces next to tight characters, except between two that would fuse. The
    character before a space is the last one that was kept. -/
def tightenAfter (previous : Option Char) : Text → Text
  | [] => []
  | c :: t =>
    let tight := previous.any isTight || t.head?.any isTight
    let fuses := previous.any isFusing && previous = t.head?
    if c = ' ' && tight && !fuses then tightenAfter previous t
    else c :: tightenAfter (some c) t

def tighten (t : Text) : Text := tightenAfter none t

def compact (t : Text) : Except Problem Text :=
  let shielded := shield (withoutComments t)
  let dense := tighten (collapseBlanks (withoutBlankLines shielded.text))
  (shielded.unshield dense).map trim

end ComponentBundle.Bundle
