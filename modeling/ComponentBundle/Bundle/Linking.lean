import ComponentBundle.Bundle.Artifact
import ComponentBundle.Bundle.Identifier
import ComponentBundle.Module.Scan
import ComponentBundle.Module.Unit
import ComponentBundle.Project.Reachable

/-!
Linking puts the modules of a graph into one scope. Local imports go, and the names
they bound become the identifiers of the modules; external imports move to
the top, each once. Names that would clash in the one scope are refused.
-/
namespace ComponentBundle.Bundle
open ComponentBundle.Text ComponentBundle.Source ComponentBundle.Module ComponentBundle.Project

/-- A module of a graph with its imports and the unit that is left without them. -/
structure ModulePart where
  relative : Text
  specifiers : List Text
  source : Text
  statements : List ImportStatement
  unit : ExportedUnit
  deriving Repr, DecidableEq

def withoutImports (source : Text) (statements : List ImportStatement) : Text :=
  applyEdits source (statements.map fun s => ⟨s.start, s.stop, []⟩)

def ModulePart.of (space : Text) (node : ReachedModule) : ModulePart :=
  let source := node.component.source
  let statements := imports space source
  { relative := node.relative, specifiers := node.specifiers, source, statements
    unit := splitUnit (withoutImports source statements) }

def ModulePart.externalImports (part : ModulePart) : List ImportStatement :=
  part.statements.filter fun s => !s.isLocal

def ModulePart.localImports (part : ModulePart) : List ImportStatement :=
  part.statements.filter fun s => s.isLocal

abbrev Table := List (Text × Text)

def Table.addNew (table : Table) (entry : Text × Text) : Table :=
  if (table.lookup entry.1).isSome then table else table ++ [entry]

def endsWith (t : Text) (c : Char) : Bool := t.getLast? = some c

def terminated (t : Text) : Text := if endsWith t ';' then t else t ++ [';']

/-- Statements that differ in white space, quotes or the semicolon are the same import. -/
def importKey (statement : Text) : Text :=
  terminated ((collapseBlanks statement).map fun c => if c = '\x22' then '\x27' else c)

def externalImports (parts : List ModulePart) : Table :=
  (parts.flatMap fun part => part.externalImports.map fun s =>
    (importKey (s.text part.source), terminated (s.text part.source))).foldl Table.addNew []

def importOrigin (specifier : Text) : Text := "import from '" ++ (specifier ++ ['\x27'])

def declarationOrigin (path : Text) : Text := "declaration in " ++ path

def importedNames (parts : List ModulePart) : Table :=
  (parts.flatMap fun part => part.externalImports.flatMap fun s =>
    s.bindings.names.map fun name => (name, importOrigin s.specifier.specifier)).foldl
      Table.addNew []

def declareNames (reserved declared : Table) : List (Text × Text) → Except Problem Table
  | [] => .ok declared
  | (name, path) :: more =>
    match reserved.lookup name, declared.lookup name with
    | some origin, _ => .error (.namingCollision name origin path)
    | none, some owner =>
      if owner = path then declareNames reserved declared more
      else .error (.duplicateDeclaration name owner path)
    | none, none => declareNames reserved (declared ++ [(name, path)]) more

def scopeNames (parts : List ModulePart) : List (Text × Text) :=
  parts.flatMap fun part => part.unit.scopeNames.map (·, part.relative)

abbrev Identified := ModulePart × Text

/-- The identifier that a specifier leads to. Of several modules with one specifier the
    last counts. -/
def target? (modules : List Identified) (specifier : Text) : Option Text :=
  ((modules.filter fun entry => entry.1.specifiers.contains specifier).getLast?).map Prod.snd

def memberTarget (target imported : Text) : Text :=
  if imported = defaultWord then target else target ++ '.' :: imported

def ImportStatement.targets (statement : ImportStatement) (target : Text) : Table :=
  let bindings := statement.bindings
  (bindings.defaultName.toList ++ bindings.namespaceName.toList).map (·, target)
    ++ bindings.members.map fun member => (member.name, memberTarget target member.imported)

/-- The same where the modules are linked; a specifier that leads to none binds nothing. -/
def ImportStatement.targetsIn (modules : List Identified) (statement : ImportStatement) : Table :=
  match target? modules statement.specifier.specifier with
  | some target => ImportStatement.targets statement target
  | none => []

def ModulePart.targets (part : ModulePart) (modules : List Identified) (identifier : Text) :
    Table :=
  part.localImports.flatMap (ImportStatement.targetsIn modules)
    ++ (part.unit.exportedName.map (·, identifier)).toList

/-- Names mean nothing inside strings, verbatim text, decorators and patterns. -/
def hidesNames (kind : SpanKind) : Bool := kind ≠ .markup

/-- The places of a name as a whole, not of a member or a template argument. -/
def nameEdits (spans : List Span) (t name target : Text) : List Edit :=
  ((occurrences name t).filter fun place =>
    !place.previous.any (fun c => isNameChar c || c = '.' || c = '@')
      && !place.next.any isNameChar && !(kindAt? spans place.start).any hidesNames).map
    fun place => ⟨place.start, place.start + width name, target⟩

def specifierEdits (spans : List Span) (t : Text) (other : Identified) : List Edit :=
  other.1.specifiers.flatMap fun specifier =>
    (specifierPlaces spans specifier t).map fun place => ⟨place.start, place.stop, other.2⟩

/-- Redirects what refers to other modules: their specifiers and the names bound to them. -/
def relink (others : List Identified) (targets : Table) (t : Text) : Text :=
  let spans := spansIn t
  let changed := targets.filter fun (name, target) => name ≠ target
  applyEdits t (others.flatMap (specifierEdits spans t)
    ++ changed.flatMap fun (name, target) => nameEdits spans t name target)

def declare (modules : List Identified) (index : Nat) (entry : Identified) : ModuleDeclaration :=
  let (part, identifier) := entry
  let relinked := relink (modules.eraseIdx index) (part.targets modules identifier)
  { identifier, relative := part.relative
    prelude := relinked (trim part.unit.preamble)
    body := relinked part.unit.body
    epilogue := relinked (trim part.unit.epilogue) }

/-- The identifiers of all parts, unless they cannot share a scope with all that is imported
    and declared in it. -/
def sharedIdentifiers (parts : List ModulePart) : Except Problem (List Text) := do
  let imported := importedNames parts
  let declared ← declareNames imported [] (scopeNames parts)
  distinctIdentifiers (imported ++ declared.map fun (name, path) => (name, declarationOrigin path))
    (parts.map ModulePart.relative)

def link (graph : ModuleGraph) (space : Text) : Except Problem Artifact := do
  let parts := graph.modules.map (ModulePart.of space)
  let identifiers ← sharedIdentifiers parts
  let modules := parts.zip identifiers
  return {
    externals := (externalImports parts).map Prod.snd
    declarations := modules.mapIdx (declare modules)
    exported := identifiers.getD graph.entry [] }

end ComponentBundle.Bundle
