import ComponentBundle.Source.Lexer

/-!
Questions about positions of a source text, answered from its segments.
-/
namespace ComponentBundle.Source
open ComponentBundle.Text

def spansOf (segments : List Segment) : List Span := (extents segments).filterMap Extent.span?

def spansIn (t : Text) : List Span := spansOf (lex t)

def spanOver? (spans : List Span) (position : Nat) : Option Span :=
  (spans.find? fun span => position < span.stop).filter fun span => span.start ≤ position

def kindAt? (spans : List Span) (position : Nat) : Option SpanKind :=
  (spanOver? spans position).map Span.kind

def inCode (segments : List Segment) (position : Nat) : Bool :=
  (extents segments).any fun extent =>
    extent.kind = .code && extent.start ≤ position && position < extent.stop

def placed (start : Nat) : Text → List (Nat × Char)
  | [] => []
  | c :: t => (start, c) :: placed (start + c.utf8Size) t

def placedCode (start : Nat) : List Segment → List (Nat × Char)
  | [] => []
  | segment :: more =>
    (if segment.kind = .code then placed start segment.text else [])
      ++ placedCode (start + segment.text.width) more

def codeChars (t : Text) : List (Nat × Char) := placedCode 0 (lex t)

def bytesOfCode (t : Text) : List (Nat × UInt8) :=
  (codeChars t).flatMap fun (position, c) =>
    (String.utf8EncodeChar c).mapIdx fun i byte => (position + i, byte)

def codeFrom (t : Text) (start : Nat) : List (Nat × Char) :=
  (codeChars t).filter fun (position, _) => start ≤ position

/-- The position after the brace that closes the first one, `depth` being open. -/
def closingBrace? (depth : Nat) : List (Nat × Char) → Option Nat
  | [] => none
  | (position, c) :: more =>
    if c = '{' then closingBrace? (depth + 1) more
    else if c = '}' then
      match depth with
      | 0 => none
      | 1 => some (position + 1)
      | depth + 2 => closingBrace? (depth + 1) more
    else closingBrace? depth more

def braceStop? (t : Text) (start : Nat) : Option Nat := closingBrace? 0 (codeFrom t start)

/-- The position of the first semicolon that no bracket opened before it encloses. -/
def semicolon? (depth : Int) : List (Nat × Char) → Option Nat
  | [] => none
  | (position, c) :: more =>
    if c = '{' || c = '(' || c = '[' then semicolon? (depth + 1) more
    else if c = '}' || c = ')' || c = ']' then semicolon? (depth - 1) more
    else if c = ';' && depth ≤ 0 then some position
    else semicolon? depth more

def nextSemicolon? (t : Text) (start : Nat) : Option Nat := semicolon? 0 (codeFrom t start)

/-- A line comment goes without a trace; a block comment leaves a line end if it had one
    and a space otherwise. -/
def commentResidue (comment : Text) : Text :=
  if !startsWith comment ['/', '*'] then [] else if comment.contains '\n' then ['\n'] else [' ']

def withoutComments (t : Text) : Text :=
  (lex t).flatMap fun segment =>
    if segment.kind = .comment then commentResidue segment.text else segment.text

end ComponentBundle.Source
