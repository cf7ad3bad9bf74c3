import ComponentBundle.Bundle.Edit
import ComponentBundle.Module.Line
import ComponentBundle.Source.Lookup

/-!
The exported unit of a module, which is its default export, its template, or the
object of its named exports, and the source before and after it.
-/
namespace ComponentBundle.Module
open ComponentBundle.Text ComponentBundle.Source ComponentBundle.Bundle

structure ExportedUnit where
  preamble : Text
  body : Text
  epilogue : Text
  /-- The name that the module itself gives to the exported value. -/
  exportedName : Option Text
  deriving Repr, DecidableEq

def braceDepth (code : List (Nat × Char)) (position : Nat) : Int :=
  let passed := (code.filter fun (place, _) => place < position).map Prod.snd
  (passed.count '{' : Int) - (passed.count '}' : Int)

/-- The names declared by code at line starts that no brace encloses. Only the first name
    of a declaration is reported, and none that is taken out of a pattern. -/
def topLevelNames (t : Text) : List Text :=
  let segments := lex t
  let code := codeChars t
  (phrases declaration? Declaration.text t).filterMap fun (start, declaration) =>
    let keyword := start + width declaration.lead
    if inCode segments keyword && braceDepth code keyword = 0 then some declaration.name
    else none

def ExportedUnit.scopeNames (parts : ExportedUnit) : List Text :=
  (topLevelNames parts.preamble ++ topLevelNames parts.epilogue).filter fun name =>
    parts.exportedName ≠ some name

def withoutSemicolon (t : Text) : Text := (optionalChar ';' (trimStart t)).2

structure FunctionHead where
  asynchrony : Text
  star : Text
  name : Option Text
  text : Text
  deriving Repr, DecidableEq

def functionHead? (t : Text) : Option FunctionHead := do
  let (asynchrony, t) := optionalReading (spacedWord? asyncWord) t
  let (word, t) ← word? functionWord t
  let (gap, t) := blanks t
  let (star, t) := optionalChar '*' t
  let (space, t) := blanks t
  let (name, t) := optionalReading name? t
  let (behind, t) := blanks t
  let (bracket, _) ← word? ['('] t
  return {
    asynchrony, star
    name := if name.isEmpty then none else some name
    text := asynchrony ++ (word ++ (gap ++ (star ++ (space ++ (name ++ (behind ++ bracket)))))) }

def FunctionHead.anonymous (head : FunctionHead) : Text :=
  (if head.asynchrony.isEmpty then [] else asyncWord ++ [' '])
    ++ (functionWord ++ (head.star ++ [' ', '(']))

def balancedEnd? (depth : Int) : List (Nat × Char) → Option Nat
  | [] => none
  | (position, c) :: more =>
    let depth := if c = '(' then depth + 1 else if c = ')' then depth - 1 else depth
    if depth = 0 then some (position + 1) else balancedEnd? depth more

def blockEnd? (t : Text) (start : Nat) : Option Nat :=
  ((codeFrom t start).find? fun (_, c) => c = '{').bind fun (brace, _) => braceStop? t brace

/-- An exported value as an expression without a name, the position after it, and the
    name that it had. -/
structure ExportedExpression where
  body : Text
  stop : Nat
  name : Option Text
  deriving Repr, DecidableEq

/-- A value goes through its last brace, or to the end of the text if that is missing. -/
def blockValue (t head : Text) (start : Nat) (stop? : Option Nat) (name : Option Text) :
    ExportedExpression :=
  match stop? with
  | some stop => ⟨head ++ slice t start stop, stop, name⟩
  | none => ⟨head ++ trimEnd (dropWidth start t), width t, name⟩

def functionValue (t : Text) (start : Nat) (head : FunctionHead) : ExportedExpression :=
  let inside := start + width head.text
  let stop? := (balancedEnd? 0 (codeFrom t (inside - 1))).bind (blockEnd? t)
  blockValue t head.anonymous inside stop? head.name

def classValue (t : Text) (start : Nat) (rest : Text) : ExportedExpression :=
  let opened := start + width classWord
  let (gap, named) := blanks rest
  match if gap.isEmpty then none else name? named with
  | some (name, _) =>
    if name = extendsWord then blockValue t classWord opened (blockEnd? t opened) none
    else
      let inside := opened + width gap + width name
      blockValue t classWord inside (blockEnd? t inside) (some name)
  | none => blockValue t classWord opened (blockEnd? t opened) none

def startsClass (rest : Text) : Bool := rest.head?.any fun c => isBlank c || c = '{'

def expressionValue (t : Text) (start : Nat) : ExportedExpression :=
  let stop := (nextSemicolon? t start).getD (width t)
  ⟨trim (slice t start stop), stop, none⟩

def exportedExpression (t : Text) (start : Nat) : ExportedExpression :=
  let rest := dropWidth start t
  match functionHead? rest with
  | some head => functionValue t start head
  | none =>
    match after? classWord rest with
    | some behind =>
      if startsClass behind then classValue t start behind else expressionValue t start
    | none => expressionValue t start

def defaultMarkerIn? (t : Text) (segments : List Segment) : Option (Nat × DefaultMarker) :=
  (phrases defaultMarker? DefaultMarker.text t).find? fun (start, marker) =>
    inCode segments (start + width marker.indent)

/-- A value that is only a name is the name of the export if the module declares it. -/
def declaredName? (value : ExportedExpression) (preamble rest : Text) : Option Text :=
  if isName value.body && (topLevelNames preamble ++ topLevelNames rest).contains value.body then
    some value.body
  else none

def defaultUnit (t : Text) (start : Nat) (marker : DefaultMarker) : ExportedUnit :=
  let value := exportedExpression t (start + width marker.text)
  let preamble := takeWidth start t
  let rest := dropWidth value.stop t
  { preamble, body := value.body, epilogue := withoutSemicolon rest
    exportedName := value.name.or (declaredName? value preamble rest) }

/-- The first template block that nothing but white space precedes on its line. -/
def templateIn? (t : Text) (segments : List Segment) : Option Span :=
  (spansOf segments).find? fun span =>
    span.kind = .markup && startsWith (dropWidth span.start t) templateTag
      && allBlank ((takeWidth span.start t).reverse.takeWhile (· ≠ '\n'))

def templateUnit (t : Text) (span : Span) : ExportedUnit :=
  { preamble := takeWidth span.start t, body := slice t span.start span.stop
    epilogue := withoutSemicolon (dropWidth span.stop t), exportedName := none }

/-- What named exports take out of the source, and the fields that they add. -/
structure Exports where
  edits : List Edit
  fields : List Text
  deriving Repr, DecidableEq

def exportedDeclarations (t : Text) (segments : List Segment) : Exports :=
  let found := (phrases exportedDeclaration? ExportedDeclaration.text t).filter fun (start, d) =>
    inCode segments (start + width d.indent)
  { edits := found.map fun (start, d) =>
      let keyword := start + width d.indent
      ⟨keyword, keyword + width d.keyword, []⟩
    fields := found.map fun (_, d) => d.name }

def aliasWord : Text := [' ', 'a', 's', ' ']

def listField (item : Text) : Text :=
  match splitFirst? aliasWord item with
  | some (name, exported) => trim exported ++ ([':', ' '] ++ trim name)
  | none => item

def exportLists (t : Text) (segments : List Segment) : Exports :=
  let found := (phrases exportList? ExportList.text t).filter fun (start, l) =>
    !startsWith (trimStart (dropWidth (start + width l.text) t)) fromKeyword
      && inCode segments (start + width l.indent)
  { edits := found.map fun (start, l) => ⟨start, start + width l.text, []⟩
    fields := found.flatMap fun (_, l) => (listItems l.items).map listField }

def objectLiteral (fields : List Text) : Text :=
  if fields.isEmpty then ['{', '}']
  else ['{', ' '] ++ (join [',', ' '] fields ++ [' ', '}'])

def namedUnit (t : Text) (segments : List Segment) : ExportedUnit :=
  let declared := exportedDeclarations t segments
  let listed := exportLists t segments
  { preamble := applyEdits t (declared.edits ++ listed.edits)
    body := objectLiteral (declared.fields ++ listed.fields)
    epilogue := [], exportedName := none }

def splitUnit (t : Text) : ExportedUnit :=
  let segments := lex t
  match defaultMarkerIn? t segments with
  | some (start, marker) => defaultUnit t start marker
  | none =>
    match templateIn? t segments with
    | some span => templateUnit t span
    | none => namedUnit t segments

end ComponentBundle.Module
