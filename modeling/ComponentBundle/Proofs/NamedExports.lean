import ComponentBundle.Proofs.Relinking
import ComponentBundle.Proofs.TopLevelNames

/-!
The exports of a module without a default export. They are the fields of one object, and a
member that another module imports is read from the identifier that holds this object.
-/
namespace ComponentBundle.Module
open ComponentBundle.Text ComponentBundle.Source

theorem optionalLineEnd_split (t : Text) : t = (optionalLineEnd t).1 ++ (optionalLineEnd t).2 := by
  unfold optionalLineEnd
  split <;> rfl

theorem exportList?_spec {t : Text} {l : ExportList} (h : exportList? t = some l) :
    ∃ rest, t = l.text ++ rest := by
  simp only [exportList?, bind, Option.bind_eq_some_iff, Prod.exists, word?_eq_some_iff] at h
  obtain ⟨keyword, afterKeyword, ⟨rfl, keywordSplit⟩, brace, behind, ⟨rfl, braceSplit⟩, closed,
    afterClosed, ⟨rfl, closedSplit⟩, same⟩ := h
  obtain rfl := Option.some.inj same
  refine ⟨(optionalLineEnd (indentation (optionalChar ';' (indentation afterClosed).2).2).2).2, ?_⟩
  simp only [ExportList.text, List.append_assoc]
  rw [← optionalLineEnd_split, ← (indentation_spec _).1, ← (optionalChar_spec _ _).1,
    ← (indentation_spec _).1, ← closedSplit, List.takeWhile_append_dropWhile, ← braceSplit,
    ← (blanks_spec _).1, ← keywordSplit, ← (indentation_spec _).1]

theorem reads_exportList : Reads exportList? ExportList.text where
  split := exportList?_spec
  filled := by
    intro t l h empty
    simp only [exportList?, bind, Option.bind_eq_some_iff, Prod.exists, word?_eq_some_iff] at h
    obtain ⟨_, _, ⟨rfl, -⟩, _, _, _, _, _, _, same⟩ := h
    obtain rfl := Option.some.inj same
    simp only [ExportList.text, List.append_eq_nil_iff] at empty
    exact absurd empty.2.1.1 (by decide)

/-- A text whose exports are all named: no default export and no template is found. -/
structure OnlyNamed (t : Text) : Prop where
  unmarked : defaultMarkerIn? t (lex t) = none
  untemplated : templateIn? t (lex t) = none

/-- The fields that the exports of a text add: the name of an exported declaration, and the
field of every item of an export list that is not taken from another module. -/
inductive ExportsField (t : Text) : Text → Prop where
  | declared (before : Text) (d : ExportedDeclaration)
      (stands : StandsAt exportedDeclaration? ExportedDeclaration.text t before d)
      (code : inCode (lex t) (width before + width d.indent)) : ExportsField t d.name
  | listed (before : Text) (l : ExportList) (item : Text)
      (stands : StandsAt exportList? ExportList.text t before l)
      (code : inCode (lex t) (width before + width l.indent))
      (own : startsWith (trimStart (dropWidth (width before + width l.text) t)) fromKeyword = false)
      (member : item ∈ listItems l.items) : ExportsField t (listField item)

def exportedFields (t : Text) : List Text :=
  (exportedDeclarations t (lex t)).fields ++ (exportLists t (lex t)).fields

theorem ExportsField.mem_exportedFields {t field : Text} (h : ExportsField t field) :
    field ∈ exportedFields t := by
  apply List.mem_append.2
  cases h with
  | declared before d stands code =>
    left
    apply List.mem_map.2
    exact ⟨_, List.mem_filter.2 ⟨stands.mem_phrases reads_exportedDeclaration, code⟩, rfl⟩
  | listed before l item stands code own member =>
    right
    have kept : (!startsWith (trimStart (dropWidth (width before + width l.text) t)) fromKeyword
        && inCode (lex t) (width before + width l.indent)) = true := by
      rw [own, code]
      rfl
    apply List.mem_flatMap.2
    exact ⟨_, List.mem_filter.2 ⟨stands.mem_phrases reads_exportList, kept⟩,
      List.mem_map_of_mem member⟩

theorem OnlyNamed.splitUnit {t : Text} (h : OnlyNamed t) : splitUnit t = namedUnit t (lex t) := by
  simp only [Module.splitUnit, h.unmarked, h.untemplated]

theorem OnlyNamed.body {t : Text} (h : OnlyNamed t) :
    (Module.splitUnit t).body = objectLiteral (exportedFields t) := by
  rw [h.splitUnit]
  rfl

end ComponentBundle.Module

namespace ComponentBundle.Bundle
open ComponentBundle.Text ComponentBundle.Source ComponentBundle.Module ComponentBundle.Project

variable {space : Text} {graph : ModuleGraph}

def targetsOf (space : Text) (graph : ModuleGraph) (node : ReachedModule) : Table :=
  (ModulePart.of space node).targets (linkedModules space graph) (identifierOf node.relative)

theorem declarations_getElem? {artifact : Artifact} (made : link graph space = .ok artifact)
    {i : Nat} {node : ReachedModule} (place : graph.modules[i]? = some node) :
    artifact.declarations[i]?
      = some (declare (linkedModules space graph) i (identified space node)) := by
  obtain ⟨-, rfl⟩ := link_eq_ok_iff.1 made
  simp [linked, linkedModules, List.getElem?_mapIdx, List.getElem?_map, place]

theorem mem_targetsOf {importer : ReachedModule} {statement : ImportStatement}
    (imported : statement ∈ imports space importer.component.source) (near : statement.isLocal)
    {target : Text}
    (leads : target? (linkedModules space graph) statement.specifier.specifier = some target)
    {entry : Text × Text} (member : entry ∈ ImportStatement.targets statement target) :
    entry ∈ targetsOf space graph importer := by
  apply List.mem_append_left
  apply List.mem_flatMap.2
  refine ⟨statement, List.mem_filter.2 ⟨imported, near⟩, ?_⟩
  rw [ImportStatement.targetsIn, leads]
  exact member

/-- A module without a default export is declared as the object of its exports, and a member
imported from it becomes a field of what this object is bound to. -/
theorem imported_members_are_fields {artifact : Artifact} (made : link graph space = .ok artifact)
    {i : Nat} {node : ReachedModule} (place : graph.modules[i]? = some node)
    (named : OnlyNamed (sourceLeft space node))
    (apart : SelfContained ((linkedModules space graph).eraseIdx i) (targetsOf space graph node)
      (unitOf space node).body) :
    ∃ declaration fields, artifact.declarations[i]? = some declaration ∧
      declaration.identifier = identifierOf node.relative ∧
      declaration.body = objectLiteral fields ∧
      (∀ field, ExportsField (sourceLeft space node) field → field ∈ fields) ∧
      ∀ importer ∈ graph.modules, ∀ statement ∈ imports space importer.component.source,
        statement.isLocal → target? (linkedModules space graph) statement.specifier.specifier
          = some declaration.identifier →
        ∀ member ∈ statement.bindings.members, member.imported ≠ defaultWord →
          (member.name, declaration.identifier ++ '.' :: member.imported)
            ∈ targetsOf space graph importer := by
  refine ⟨_, exportedFields (sourceLeft space node), declarations_getElem? made place, rfl, ?_,
    fun field exports => exports.mem_exportedFields, ?_⟩
  · have body : (unitOf space node).body = objectLiteral (exportedFields (sourceLeft space node)) :=
      named.body
    rw [← body]
    exact apart.relink
  · intro importer _ statement imported near leads member inside other
    apply mem_targetsOf imported near leads
    apply List.mem_append_right
    apply List.mem_map.2
    refine ⟨member, inside, ?_⟩
    rw [memberTarget, if_neg other]

/-! A module that exports a size, as its only export, beside a default, or under the name
`default`. -/

def panelResolver : Resolver := ⟨⟨"parts"⟩, "app", "gjs"⟩

def panel (source : Text) : ReachedModule :=
  ⟨⟨panelResolver.locate "panel.gjs", source⟩, ["app/panel", "app/panel.gjs"]⟩

def panelUser (clause : Text) : ReachedModule :=
  ⟨⟨panelResolver.locate "main.gjs",
    "import " ++ (clause ++ " from 'app/panel';\nexport default [size];")⟩,
    ["app/main", "app/main.gjs"]⟩

def panelGraph (source clause : Text) : ModuleGraph := ⟨[panel source, panelUser clause], 1, []⟩

def panelArtifact (prelude body used : Text) : Artifact where
  externals := []
  declarations := [⟨"Panel", "panel.gjs", prelude, body, []⟩, ⟨"Main", "main.gjs", [], used, []⟩]
  exported := "Main"

theorem size_is_field :
    link (panelGraph "export const size = 2;" "{ size }") "app"
        = .ok (panelArtifact "const size = 2;" "{ size }" "[Panel.size]") ∧
      ∃ (declaration : ModuleDeclaration) (fields : List Text),
        (panelArtifact "const size = 2;" "{ size }" "[Panel.size]").declarations[0]?
          = some declaration ∧
        declaration.body = objectLiteral fields ∧ "size".toList ∈ fields := by
  have linked : link (panelGraph "export const size = 2;" "{ size }") "app"
      = .ok (panelArtifact "const size = 2;" "{ size }" "[Panel.size]") := by decide +kernel
  have place : (panelGraph "export const size = 2;" "{ size }").modules[0]?
      = some (panel "export const size = 2;") := rfl
  have left : sourceLeft "app" (panel "export const size = 2;") = "export const size = 2;" := by
    decide +kernel
  have named : OnlyNamed (sourceLeft "app" (panel "export const size = 2;")) :=
    ⟨by decide +kernel, by decide +kernel⟩
  have apart : SelfContained
      ((linkedModules "app" (panelGraph "export const size = 2;" "{ size }")).eraseIdx 0)
      (targetsOf "app" (panelGraph "export const size = 2;" "{ size }")
        (panel "export const size = 2;"))
      (unitOf "app" (panel "export const size = 2;")).body := by
    apply SelfContained.of_absent <;> decide +kernel
  have exports : ExportsField (sourceLeft "app" (panel "export const size = 2;")) "size" := by
    rw [left]
    exact .declared [] ⟨[], "export ", "const ", "size"⟩ (.atStart (by decide +kernel))
      (by decide +kernel)
  obtain ⟨declaration, fields, atPlace, -, body, kept, -⟩ :=
    imported_members_are_fields linked place named apart
  exact ⟨linked, declaration, fields, atPlace, body, kept _ exports⟩

theorem size_beside_default_lost :
    (link (panelGraph "export const size = 2;\nexport default [size];" "{ size }") "app"
          = .ok (panelArtifact "export const size = 2;" "[size]" "[Panel.size]") ∧
        ExportsField (sourceLeft "app" (panel "export const size = 2;\nexport default [size];"))
          "size" ∧
        ∀ fields, "[size]".toList ≠ objectLiteral fields) ∧
      link (panelGraph "export { side as default };\nconst side = 2;" "size") "app"
          = .ok (panelArtifact "const side = 2;" "{ default: side }" "[Panel]") ∧
        ExportsField (sourceLeft "app" (panel "export { side as default };\nconst side = 2;"))
          "default: side" := by
  refine ⟨⟨by decide +kernel, ?_, ?_⟩, by decide +kernel, ?_⟩
  · have left : sourceLeft "app" (panel "export const size = 2;\nexport default [size];")
        = "export const size = 2;\nexport default [size];" := by decide +kernel
    rw [left]
    exact .declared [] ⟨[], "export ", "const ", "size"⟩ (.atStart (by decide +kernel))
      (by decide +kernel)
  · intro fields same
    unfold objectLiteral at same
    split at same <;> simp at same
  · have left : sourceLeft "app" (panel "export { side as default };\nconst side = 2;")
        = "export { side as default };\nconst side = 2;" := by decide +kernel
    rw [left]
    exact .listed [] ⟨[], "export \x7b", " side as default ", "\x7d;\n"⟩ "side as default"
      (.atStart (by decide +kernel)) (by decide +kernel) (by decide +kernel) (by decide +kernel)

end ComponentBundle.Bundle
