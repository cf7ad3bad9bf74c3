import ComponentBundle.Text.Basic

/-!
Source text is a sequence of segments: code, comments, and spans that belong to
another language and are never changed. A segment holds its own text; its place
is the width of the segments before it.
-/
namespace ComponentBundle.Source

inductive SpanKind where
  /-- Template blocks and double or triple brace expressions. -/
  | markup
  /-- Backtick literals with everything inside them. -/
  | verbatimText
  /-- Decorators with their arguments. -/
  | decorator
  | quotedText
  /-- Regular expression literals. -/
  | pattern
  deriving Repr, DecidableEq

def SpanKind.hidesSpecifiers (kind : SpanKind) : Bool := kind ≠ .quotedText

inductive SegmentKind where
  | code
  | comment
  | span (kind : SpanKind)
  deriving Repr, DecidableEq

def SegmentKind.span? : SegmentKind → Option SpanKind
  | .span kind => some kind
  | _ => none

structure Segment where
  kind : SegmentKind
  text : Text
  deriving Repr, DecidableEq

structure Extent where
  kind : SegmentKind
  start : Nat
  stop : Nat
  deriving Repr, DecidableEq

structure Span where
  kind : SpanKind
  start : Nat
  stop : Nat
  deriving Repr, DecidableEq

def extentsFrom (start : Nat) : List Segment → List Extent
  | [] => []
  | segment :: more =>
    let stop := start + segment.text.width
    ⟨segment.kind, start, stop⟩ :: extentsFrom stop more

def extents (segments : List Segment) : List Extent := extentsFrom 0 segments

def Extent.span? (extent : Extent) : Option Span :=
  extent.kind.span?.map fun kind => ⟨kind, extent.start, extent.stop⟩

end ComponentBundle.Source
