import ComponentBundle.Module.Import
import ComponentBundle.Module.Specifier

/-!
The import statements of a source text. One is looked for at the start of every line
and after every statement, but never inside markup, verbatim text or quotes.
-/
namespace ComponentBundle.Module
open ComponentBundle.Text ComponentBundle.Source

structure ImportStatement where
  /-- The position of the keyword. -/
  start : Nat
  /-- The position after the statement, with the rest of its line if that is blank. -/
  stop : Nat
  specifier : PlacedSpecifier
  bindings : Bindings
  isLocal : Bool
  deriving Repr, DecidableEq

def ImportStatement.text (statement : ImportStatement) (source : Text) : Text :=
  trim (slice source statement.start statement.stop)

def ImportForm.placed (form : ImportForm) (space : Text) (start : Nat) : ImportStatement :=
  let opened := start + width form.opening
  let closed := opened + width form.specifier
  { start, stop := closed + width form.closing
    specifier := ⟨opened, closed, form.specifier⟩
    bindings := Bindings.ofClause form.clause
    isLocal := isLocal space form.specifier }

def endsKeyword (next : Option Char) : Bool :=
  !next.any fun c => isNameChar c || c = '(' || c = '.'

def hidesStatements (kind : SpanKind) : Bool :=
  kind = .markup || kind = .verbatimText || kind = .quotedText

/-- The statement that starts with the first character of `t`, which stands at `start`. -/
def statementAt? (spans : List Span) (start : Nat) (t : Text) : Option ImportForm :=
  match after? importKeyword t with
  | none => none
  | some rest =>
    if endsKeyword rest.head? && !(kindAt? spans start).any hidesStatements then importForm? rest
    else none

theorem statementAt?_rest_length {spans : List Span} {start : Nat} {t : Text} {form : ImportForm}
    (h : statementAt? spans start t = some form) : form.rest.length < t.length := by
  unfold statementAt? at h
  split at h
  · simp at h
  · rename_i rest found
    have lengths := congrArg List.length (after?_eq_some_iff.1 found)
    split at h
    · have := importForm?_rest_length h
      simp [importKeyword] at lengths
      omega
    · simp at h

def firstLine (t : Text) : Text :=
  let line := t.takeWhile (· ≠ '\n')
  line ++ (t.drop line.length).take 1

theorem firstLine_length_pos (c : Char) (t : Text) : 0 < (firstLine (c :: t)).length := by
  simp only [firstLine, List.takeWhile]
  split <;> simp

def scanFrom (space : Text) (spans : List Span) (start : Nat) : Text → List ImportStatement
  | [] => []
  | c :: t =>
    let line := firstLine (c :: t)
    let indent := line.takeWhile isBlank
    let position := start + width indent
    match _found : statementAt? spans position ((c :: t).drop indent.length) with
    | some form =>
      let statement := form.placed space position
      statement :: scanFrom space spans statement.stop form.rest
    | none => scanFrom space spans (start + width line) ((c :: t).drop line.length)
termination_by t => t.length
decreasing_by
  · have := statementAt?_rest_length _found
    simp at this ⊢
    omega
  · have := firstLine_length_pos c t
    simp at this ⊢
    omega

def imports (space source : Text) : List ImportStatement :=
  scanFrom space (spansIn source) 0 source

end ComponentBundle.Module
