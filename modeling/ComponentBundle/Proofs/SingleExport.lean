import ComponentBundle.Proofs.ExportRemoval
import ComponentBundle.Proofs.HoistedImports
import ComponentBundle.Proofs.RelinkedExports

/-!
A bundle exports its entry and nothing else, as long as no module keeps an export. The exports of
a module are taken out only if none of them is its default; what stands before and after a default
export or a template goes into the bundle as it is.
-/
namespace ComponentBundle.Bundle
open ComponentBundle.Text ComponentBundle.Source ComponentBundle.Module ComponentBundle.Project

variable {space : Text} {graph : ModuleGraph}

/-- Nothing around the exported unit of a module is exported, or all that is exported is taken out;
and no line of its external imports or of the unit itself is led by `export`. -/
structure NoExportLeft (space : Text) (node : ReachedModule) : Prop where
  imports : ∀ s ∈ imports space node.component.source, s.isLocal = false →
    ExportFree true (s.text node.component.source)
  body : ExportFree false (unitOf space node).body
  around : AllTakenOut (sourceLeft space node) ∨
    ExportFree true (unitOf space node).preamble ∧ ExportFree true (unitOf space node).epilogue

theorem NoExportLeft.outside {node : ReachedModule} (h : NoExportLeft space node) :
    ExportFree true (unitOf space node).preamble ∧
      ExportFree true (unitOf space node).epilogue := by
  cases h.around with
  | inl taken => exact ⟨taken.preamble, taken.epilogue⟩
  | inr free => exact free

theorem exportFree_declare {node : ReachedModule} (h : NoExportLeft space node) (index : Nat) :
    (declare (linkedModules space graph) index (identified space node)).ExportFree := by
  have relinked {fresh : Bool} {t : Text} (free : ExportFree fresh t) :
      ExportFree fresh (relink ((linkedModules space graph).eraseIdx index)
        (targetsOf space graph node) t) := by
    apply exportFree_relink free
    · intro other member
      exact mem_linkedModules (List.mem_of_mem_eraseIdx member)
    · intro entry member
      exact solid_of_mem_targetsOf member
  constructor
  · exact relinked (exportFree_trim h.outside.1)
  · exact relinked h.body
  · exact relinked (exportFree_trim h.outside.2)

theorem exportFree_terminated {t : Text} (free : ExportFree true t) :
    ExportFree true (terminated t) := by
  unfold terminated
  split
  · exact free
  · have mark : ExportFree (freshAfter true t) [';'] := by
      cases freshAfter true t <;> decide
    exact free.append mark (Or.inr rfl)

theorem exportFree_externals {artifact : Artifact} (made : link graph space = .ok artifact)
    (clear : ∀ node ∈ graph.modules, NoExportLeft space node) :
    ∀ t ∈ artifact.externals, ExportFree true t := by
  rw [externals_eq made]
  intro t member
  obtain ⟨e, first, rfl⟩ := List.mem_map.1 member
  obtain ⟨node, known, inside⟩ := List.mem_flatMap.1 (mem_of_mem_firstsBy first)
  obtain ⟨s, found, rfl⟩ := List.mem_map.1 inside
  obtain ⟨imported, far⟩ := List.mem_filter.1 found
  exact exportFree_terminated ((clear node known).imports s imported (by simpa using far))

theorem exported_names {artifact : Artifact} (made : link graph space = .ok artifact) :
    ∀ c ∈ artifact.exported, isIdentifierChar c := by
  obtain ⟨-, rfl⟩ := link_eq_ok_iff.1 made
  intro c inside
  rw [linked, List.getD_eq_getElem?_getD, List.getElem?_map] at inside
  cases entry : graph.relatives[graph.entry]? with
  | none =>
    rw [entry] at inside
    contradiction
  | some path =>
    rw [entry] at inside
    exact (identifierOf_capital path).all c inside

/-- A bundle of modules that keep no export has one, of the entry, in its last line. -/
theorem single_export {artifact : Artifact} (made : link graph space = .ok artifact)
    (clear : ∀ node ∈ graph.modules, NoExportLeft space node) :
    exportPlaces artifact.render = [width artifact.beforeExport] ∧
      ∀ entry, graph.modules[graph.entry]? = some entry → artifact.render
        = artifact.beforeExport ++ (exportDefaultWords
          ++ (identifierOf entry.relative ++ semicolonLine)) := by
  have declared : ∀ d ∈ artifact.declarations, '\n' ∉ d.identifier ∧ d.ExportFree := by
    obtain ⟨-, rfl⟩ := link_eq_ok_iff.1 made
    intro d member
    obtain ⟨index, bound, rfl⟩ := List.mem_mapIdx.1 member
    obtain ⟨node, known, same⟩ := List.mem_map.1 (List.getElem_mem bound)
    rw [← same]
    constructor
    · exact (identifierOf_capital node.relative).line
    · exact exportFree_declare (clear node known) index
  have free := freeLines_beforeExport (exportFree_externals made clear)
    (fun d member => (declared d member).1) (fun d member => (declared d member).2)
  constructor
  · rw [exportPlaces_render (exported_names made), exportWordsFrom_eq_nil_iff.2 free.free]
    rfl
  · intro entry atEntry
    obtain ⟨-, rfl⟩ := link_eq_ok_iff.1 made
    have named : (linked space graph).exported = identifierOf entry.relative := by
      simp [linked, ModuleGraph.relatives, atEntry]
    rw [Artifact.render_eq, Artifact.exportLine, named]

/-! A module that exports a size and nothing else, and one that imports it. -/

theorem size_takenOut : AllTakenOut "export const size = 2;" := by
  have words : exportWordsFrom true 0 "export const size = 2;" = [0] := by decide +kernel
  have lists : phrases exportList? ExportList.text "export const size = 2;" = [] := by
    decide +kernel
  refine ⟨⟨by decide +kernel, by decide +kernel⟩, ?_, ?_⟩
  · intro before rest split fresh starts
    have place : 0 + width before ∈ exportWordsFrom true 0 "export const size = 2;" :=
      mem_exportWordsFrom.2 ⟨before, rest, split, rfl, fresh, starts⟩
    rw [words, List.mem_singleton, Nat.zero_add] at place
    obtain rfl : before = [] := by
      by_contra filled
      exact absurd place (Nat.ne_of_gt (width_pos filled))
    exact .declared [] ⟨[], "export ", "const ", "size"⟩ (.atStart (by decide +kernel))
      (by decide +kernel)
  · intro place l found
    rw [lists] at found
    contradiction

theorem size_panel_exports_main :
    link (panelGraph "export const size = 2;" "{ size }") "app"
        = .ok (panelArtifact "const size = 2;" "{ size }" "[Panel.size]") ∧
      exportPlaces (panelArtifact "const size = 2;" "{ size }" "[Panel.size]").render
        = [width (panelArtifact "const size = 2;" "{ size }" "[Panel.size]").beforeExport] := by
  have linked : link (panelGraph "export const size = 2;" "{ size }") "app"
      = .ok (panelArtifact "const size = 2;" "{ size }" "[Panel.size]") := by decide +kernel
  have left : sourceLeft "app" (panel "export const size = 2;") = "export const size = 2;" := by
    decide +kernel
  have taken : AllTakenOut (sourceLeft "app" (panel "export const size = 2;")) := by
    rw [left]
    exact size_takenOut
  have first : NoExportLeft "app" (panel "export const size = 2;") :=
    ⟨by decide +kernel, by decide +kernel, Or.inl taken⟩
  have second : NoExportLeft "app" (panelUser "{ size }") :=
    ⟨by decide +kernel, by decide +kernel, Or.inr (by decide +kernel)⟩
  have clear : ∀ node ∈ (panelGraph "export const size = 2;" "{ size }").modules,
      NoExportLeft "app" node :=
    List.forall_mem_cons.2 ⟨first, List.forall_mem_cons.2 ⟨second, by simp⟩⟩
  exact ⟨linked, (single_export linked clear).1⟩

/-! Modules that export a name beside their default, and one with two lists on a line. -/

def entryModule (source : Text) : ReachedModule :=
  ⟨⟨panelResolver.locate "main.gjs", source⟩, ["app/main", "app/main.gjs"]⟩

def sizesGraph : ModuleGraph where
  modules := [
    panel "const wide = 2;\nexport { wide as size };\nexport default [wide];",
    entryModule ("import Panel from 'app/panel';\nconst tall = 3;\n"
      ++ "export { tall as size };\nexport default [Panel, tall];")]
  entry := 1
  warnings := []

def sizesArtifact : Artifact where
  externals := []
  declarations := [
    ⟨"Panel", "panel.gjs", "const wide = 2;\nexport { wide as size };", "[wide]", []⟩,
    ⟨"Main", "main.gjs", "const tall = 3;\nexport { tall as size };", "[Panel, tall]", []⟩]
  exported := "Main"

def edgesGraph : ModuleGraph :=
  ⟨[entryModule "const side = 2, edge = 3;\nexport { side }; export { edge };"], 0, []⟩

def edgesArtifact : Artifact where
  externals := []
  declarations := [
    ⟨"Main", "main.gjs", "const side = 2, edge = 3;\nexport { edge };", "{ side }", []⟩]
  exported := "Main"

theorem lists_exported_again :
    (link sizesGraph "app" = .ok sizesArtifact ∧
        (exportPlaces sizesArtifact.render).length = 3) ∧
      link edgesGraph "app" = .ok edgesArtifact ∧
        (exportPlaces edgesArtifact.render).length = 2 := by
  refine ⟨⟨?_, ?_⟩, ?_, ?_⟩
  all_goals decide +kernel

end ComponentBundle.Bundle
