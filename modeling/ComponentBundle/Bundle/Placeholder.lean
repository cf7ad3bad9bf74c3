import ComponentBundle.Problem
import ComponentBundle.Source.Lookup
import ComponentBundle.Text.Decimal

/-!
Text whose protected spans stand behind placeholders. A placeholder is the index of
its span between two private characters that the text does not use.
-/
namespace ComponentBundle.Bundle
open ComponentBundle.Text ComponentBundle.Source

structure Shielded where
  text : Text
  hidden : List Text
  opener : Char
  closer : Char
  deriving Repr, DecidableEq

def privateChars : List Char := (List.range' 0xE000 6400).map Char.ofNat

/-- The first two private characters that a text does not use. A text that uses all of
    them gets two from another plane, which it may use as well. -/
def sentinels (t : Text) : Char × Char :=
  let opener := privateChars.find? fun c => !t.contains c
  let closer := privateChars.find? fun c => some c ≠ opener && !t.contains c
  (opener.getD (Char.ofNat 0xF0000), closer.getD (Char.ofNat 0xF0001))

def placeholder (opener closer : Char) (index : Nat) : Text :=
  opener :: (ofNat index ++ [closer])

def shieldFrom (opener closer : Char) (index : Nat) : List Segment → Text
  | [] => []
  | segment :: more =>
    match segment.kind with
    | .span _ => placeholder opener closer index ++ shieldFrom opener closer (index + 1) more
    | _ => segment.text ++ shieldFrom opener closer index more

def spanTexts (segments : List Segment) : List Text :=
  (segments.filter fun segment => segment.kind.span?.isSome).map Segment.text

def shield (t : Text) : Shielded :=
  let (opener, closer) := sentinels t
  let segments := lex t
  { text := shieldFrom opener closer 0 segments, hidden := spanTexts segments, opener, closer }

def Shielded.unshieldFrom (s : Shielded) (used : List Nat) :
    Text → Except PlaceholderFault Text
  | [] =>
    match (List.range s.hidden.length).find? fun index => !used.contains index with
    | some index => .error (.lost index)
    | none => .ok []
  | c :: t =>
    if c = s.closer then .error .strayTerminator
    else if c = s.opener then
      let digits := t.takeWhile (· ≠ s.closer)
      let rest := t.dropWhile (· ≠ s.closer)
      if rest.isEmpty then .error (.malformed digits)
      else
        match natural? digits with
        | none => .error (.malformed digits)
        | some index =>
          match s.hidden[index]? with
          | none => .error (.malformed digits)
          | some span =>
            if used.contains index then .error (.repeated index)
            else (s.unshieldFrom (index :: used) rest.tail).map (span ++ ·)
    else (s.unshieldFrom used t).map (c :: ·)
termination_by t => t.length
decreasing_by
  · have shorter := (List.dropWhile_suffix (l := t) (· ≠ s.closer)).length_le
    rw [List.length_tail, List.length_cons]
    omega
  · simp

/-- Puts every span of `s` back into a text. Each placeholder has to stand there once. -/
def Shielded.unshield (s : Shielded) (t : Text) : Except Problem Text :=
  (s.unshieldFrom [] t).mapError .brokenPlaceholder

end ComponentBundle.Bundle
