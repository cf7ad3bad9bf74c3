import Mathlib.Data.List.Forall2
import ComponentBundle.Bundle.Compilation
import ComponentBundle.Proofs.ComponentListing
import ComponentBundle.Proofs.Walk

/-!
What a compilation holds in each mode. Its assets are what the walk reached or what was
listed, and the manifest tells of their paths. They go to places of their own unless two listed
files have names that are shown alike, and then it tells of each of them once.
-/
namespace ComponentBundle.Project
open ComponentBundle.Text ComponentBundle.Files

variable {resolver : Resolver} {tree : FileTree} {entry location : Location}

theorem Resolver.resolve_locate {specifier : Text}
    (h : resolver.resolve tree specifier = some location) :
    location = resolver.locate location.relative := by
  obtain ⟨path, -, found⟩ := Option.bind_eq_some_iff.1 h
  obtain ⟨candidate, -, rfl⟩ := List.mem_map.1 (List.mem_of_find?_eq_some found)
  rfl

theorem reachable_locate (placed : entry = resolver.locate entry.relative)
    (reached : Reachable resolver tree entry location) :
    location = resolver.locate location.relative := by
  cases reached with
  | refl => exact placed
  | tail path import_ =>
    obtain ⟨component, specifier, -, -, resolved⟩ := import_
    exact Resolver.resolve_locate resolved

theorem ModuleGraph.Spans.relatives_apart {graph : ModuleGraph}
    (spans : graph.Spans resolver tree entry) (placed : entry = resolver.locate entry.relative) :
    (graph.modules.map fun node => (FilePath.mk (Text.bytes node.relative)).parts).Nodup := by
  have keys : ∀ node ∈ graph.modules,
      node.key = (resolver.root.joined ⟨Text.bytes node.relative⟩).parts := by
    intro node member
    have place := reachable_locate placed (spans.reached node member).1
    exact congrArg Location.key place
  refine List.pairwise_map.2 ((List.pairwise_map.1 spans.distinct).imp_of_mem ?_)
  intro a b first second apart same
  refine apart ?_
  rw [keys a first, keys b second]
  exact FilePath.joined_parts_congr _ same

theorem ModuleGraph.Spans.dependencies_eq {graph : ModuleGraph}
    (spans : graph.Spans resolver tree entry) (apart : graph.relatives.Nodup) :
    entry.relative ∈ graph.relatives ∧ graph.dependencies.map ReachedModule.relative
      = graph.relatives.filter (· ≠ entry.relative) := by
  obtain ⟨node, found, place⟩ := Option.map_eq_some_iff.1 spans.entryAt
  have final : graph.modules.getLast? = some node := by
    rw [List.getLast?_eq_getElem?, ← spans.entryLast, Nat.add_sub_cancel, found]
  obtain ⟨others, split⟩ := List.getLast?_eq_some_iff.1 final
  have size := spans.entryLast
  rw [split, List.length_append, List.length_singleton] at size
  have index : graph.entry = others.length := by omega
  have relative : node.relative = entry.relative := congrArg Location.relative place
  have left : graph.dependencies = others := by
    rw [dependencies, split, index, List.eraseIdx_append_of_length_le (Nat.le_refl _),
      Nat.sub_self]
    simp
  have whole : graph.relatives = others.map ReachedModule.relative ++ [entry.relative] := by
    rw [relatives, split, List.map_append, ← relative]
    rfl
  rw [whole] at apart ⊢
  rw [← List.concat_eq_append, List.nodup_concat] at apart
  have kept : (others.map ReachedModule.relative).filter (· ≠ entry.relative)
      = others.map ReachedModule.relative := by
    refine List.filter_eq_self.2 fun path inside => ?_
    have ne : path ≠ entry.relative := fun same => apart.1 (same ▸ inside)
    simpa using ne
  refine ⟨by simp, ?_⟩
  rw [left, List.filter_append, kept]
  simp

end ComponentBundle.Project

namespace ComponentBundle.Bundle
open ComponentBundle.Text ComponentBundle.Files ComponentBundle.Project

theorem bind_eq_ok {α β ε : Type} {x : Except ε α} {f : α → Except ε β} {b : β} :
    (x >>= f) = .ok b ↔ ∃ a, x = .ok a ∧ f a = .ok b := by
  cases x <;> simp [bind, Except.bind]

theorem forall₂_of_mapM_eq_ok {α β ε : Type} {f : α → Except ε β} {l : List α} {results : List β}
    (h : l.mapM f = .ok results) : List.Forall₂ (fun a b => f a = .ok b) l results := by
  induction l generalizing results with
  | nil =>
    obtain rfl := Except.ok.inj h
    exact .nil
  | cons a l ih =>
    rw [List.mapM_cons, bind_eq_ok] at h
    obtain ⟨b, first, h⟩ := h
    obtain ⟨more, rest, h⟩ := bind_eq_ok.1 h
    obtain rfl := Except.ok.inj h
    exact .cons first (ih rest)

/-- The parts of the path of an asset: assets with other parts go to other places. -/
def Asset.parts (asset : Asset) : List FilePath.Part := (FilePath.mk (Text.bytes asset.path)).parts

def Plan.item (plan : Plan) (asset : Asset) : ManifestItem where
  name := publicName plan.release asset.path
  url := joinedUrl plan.base plan.release.publicUrl asset.path
  version := plan.release.version
  kind := extensionKind

/-- The manifest tells of the path of the entry as the main one, and in their order of all other
    paths that assets have. -/
def Compilation.Told (compilation : Compilation) (plan : Plan) : Prop :=
  ∃ main ∈ compilation.assets, main.path = plan.entry.relative ∧
    compilation.manifest =
      ⟨some ((compilation.assets.filter fun asset => asset.path ≠ plan.entry.relative).map plan.item),
        plan.item main⟩

/-- What the assets, the modules and the manifest of a compilation are. -/
def Compilation.Holds (compilation : Compilation) (tree : FileTree) (settings : Settings)
    (plan : Plan) : Prop :=
  match settings.mode with
  | .single => ∃ graph asset, reach plan.resolver tree plan.entry = .ok graph ∧
      compilation.assets = [asset] ∧ compilation.modules = graph.relatives ∧
      compilation.manifest.dependencies = none ∧
      compilation.manifest.main.url = joinedUrl plan.base settings.publicUrl asset.path
  | .multi => ∃ graph, reach plan.resolver tree plan.entry = .ok graph ∧
      compilation.assets = graph.modules.map (fun node => ⟨node.relative, node.component.source⟩) ∧
      (∀ node ∈ graph.modules,
        tree.readText node.component.location.path = .ok node.component.source) ∧
      compilation.modules = graph.relatives ∧ compilation.Told plan
  | .mirror =>
      let files := componentFiles tree plan.resolver.root plan.resolver.extension
      (∀ file, file ∈ files ↔ ComponentAt tree plan.resolver.root plan.resolver.extension file) ∧
      files.Pairwise (fun a b => notAfter a.relative b.relative) ∧
      List.Forall₂ (fun file asset => asset.path = file.relative ∧
        tree.readText file.path = .ok asset.contents) files compilation.assets ∧
      compilation.modules = files.map Location.relative ∧ compilation.Told plan

variable {tree : FileTree} {settings : Settings} {package : Package} {base : Text} {made : Plan}
  {compilation : Compilation}

/-- What a plan takes over from the settings. -/
structure Plan.Follows (plan : Plan) (settings : Settings) (base : Text) : Prop where
  base : plan.base = base
  publicUrl : plan.release.publicUrl = settings.publicUrl
  mode : plan.release.mode = settings.mode
  entry : plan.entry = plan.resolver.locate plan.entry.relative

def planFor (settings : Settings) (package : Package) (base : Text) (entry : Location) : Plan :=
  let space := settings.spaceOf package.name
  let resolver := Resolver.of settings.modulesPath space settings.extension
  { resolver, entry, base
    release :=
      { space, publicUrl := settings.publicUrl, version := package.versionText
        extension := resolver.extension, mode := settings.mode } }

theorem plan_eq_ok_iff : plan tree settings package base = .ok made ↔
    ∃ specifier entry, entrySpecifier? settings package = some specifier ∧
      made.resolver.resolve tree specifier = some entry ∧
      made = planFor settings package base entry := by
  unfold plan
  constructor
  · intro h
    split at h
    · contradiction
    · rename_i specifier named
      dsimp only at h
      split at h
      · contradiction
      · rename_i entry resolved
        obtain rfl := Except.ok.inj h
        exact ⟨specifier, entry, named, resolved, rfl⟩
  · rintro ⟨specifier, entry, named, resolved, rfl⟩
    have found : (Resolver.of settings.modulesPath (settings.spaceOf package.name)
        settings.extension).resolve tree specifier = some entry := resolved
    simp only [named, found]
    rfl

theorem plan_follows (h : plan tree settings package base = .ok made) :
    made.Follows settings base := by
  obtain ⟨specifier, entry, -, resolved, rfl⟩ := plan_eq_ok_iff.1 h
  exact ⟨rfl, rfl, rfl, Resolver.resolve_locate resolved⟩

theorem told_of_manifest (found : made.entry.relative ∈ compilation.assets.map Asset.path)
    (several : made.release.mode ≠ .single)
    (told : compilation.manifest = manifest made.release made.base (.plain made.entry.relative)
      (((compilation.assets.map Asset.path).filter (· ≠ made.entry.relative)).map .plain)) :
    compilation.Told made := by
  obtain ⟨main, member, entry⟩ := List.mem_map.1 found
  refine ⟨main, member, entry, ?_⟩
  rw [told, manifest, if_neg several, ← entry, List.filter_map, List.map_map, List.map_map]
  rfl

theorem compileLinked_eq_ok (follows : made.Follows settings base)
    (single : settings.mode = .single) (h : compileLinked tree settings made = .ok compilation) :
    compilation.Holds tree settings made := by
  obtain ⟨graph, reached, h⟩ := bind_eq_ok.1 h
  obtain ⟨artifact, -, h⟩ := bind_eq_ok.1 h
  obtain ⟨contents, rfl⟩ : ∃ contents, compilation =
      { manifest := manifest made.release made.base ⟨made.entry.relative,
          settings.bundleFileName.getD made.entry.relative⟩ []
        assets := [⟨settings.bundleFileName.getD made.entry.relative, contents⟩]
        warnings := graph.warnings
        modules := graph.relatives } := by
    dsimp only at h
    split at h
    · obtain ⟨contents, -, h⟩ := bind_eq_ok.1 h
      exact ⟨contents, (Except.ok.inj h).symm⟩
    · exact ⟨_, (Except.ok.inj h).symm⟩
  have mode : made.release.mode = .single := follows.mode.trans single
  simp only [Compilation.Holds, single]
  refine ⟨graph, _, reached, rfl, rfl, ?_, ?_⟩
  · simp [manifest, mode]
  · simp [manifest, Release.item, follows.publicUrl]

theorem paths_apart {assets : List Asset} (apart : (assets.map Asset.parts).Nodup) :
    (assets.map Asset.path).Nodup := by
  refine List.pairwise_map.2 ((List.pairwise_map.1 apart).imp fun ne same => ne ?_)
  rw [Asset.parts, same, ← Asset.parts]

theorem compileReached_eq_ok (follows : made.Follows settings base)
    (multi : settings.mode = .multi) (h : compileReached tree made = .ok compilation) :
    compilation.Holds tree settings made := by
  obtain ⟨graph, reached, h⟩ := bind_eq_ok.1 h
  obtain rfl := Except.ok.inj h
  have spans := spans_of_reach reached
  have parts : (graph.modules.map fun node => Component.asset node.component).map Asset.parts
      = graph.modules.map fun node => (FilePath.mk (Text.bytes node.relative)).parts := List.map_map
  have paths : (graph.modules.map fun node => Component.asset node.component).map Asset.path
      = graph.relatives := List.map_map
  have relatives : graph.relatives.Nodup :=
    paths ▸ paths_apart (parts ▸ spans.relatives_apart follows.entry)
  obtain ⟨found, others⟩ := spans.dependencies_eq relatives
  have mode : made.release.mode ≠ .single := by
    rw [follows.mode, multi]
    decide
  simp only [Compilation.Holds, multi]
  refine ⟨graph, reached, rfl, fun node member => (spans.reached node member).2, rfl, ?_⟩
  refine told_of_manifest (paths ▸ found) mode ?_
  rw [paths, ← others, List.map_map]
  rfl

theorem readComponents_eq_ok {files : List Location} {components : List Component}
    (h : files.mapM (readComponent tree) = .ok components) :
    components.map Component.location = files ∧
      List.Forall₂ (fun (file : Location) (asset : Asset) => asset.path = file.relative ∧
        tree.readText file.path = .ok asset.contents) files (components.map Component.asset) := by
  have each := forall₂_of_mapM_eq_ok h
  refine ⟨?_, List.forall₂_map_right_iff.2 (each.imp fun file component found => ?_)⟩
  · rw [← List.forall₂_eq_eq_eq, List.forall₂_map_left_iff]
    exact (each.imp fun file component => readComponent_location).flip
  · exact ⟨congrArg Location.relative (readComponent_location found), readComponent_source found⟩

theorem compileListed_eq_ok (follows : made.Follows settings base)
    (mirror : settings.mode = .mirror) (h : compileListed tree made = .ok compilation) :
    compilation.Holds tree settings made := by
  unfold compileListed at h
  dsimp only at h
  split at h
  · obtain ⟨-, refused, -⟩ := bind_eq_ok.1 h
    contradiction
  · rename_i present
    obtain ⟨components, read, h⟩ := bind_eq_ok.1 h
    obtain rfl := Except.ok.inj h
    obtain ⟨locations, assets⟩ := readComponents_eq_ok read
    have modules : components.map (·.location.relative)
        = (componentFiles tree made.resolver.root made.resolver.extension).map
            Location.relative := by
      rw [← locations, List.map_map]
      rfl
    have paths : (components.map Component.asset).map Asset.path
        = components.map (·.location.relative) := List.map_map
    have mode : made.release.mode ≠ .single := by
      rw [follows.mode, mirror]
      decide
    simp only [Compilation.Holds, mirror]
    refine ⟨fun file => mem_componentFiles, componentFiles_sorted _ _ _, assets, modules, ?_⟩
    refine told_of_manifest ?_ mode ?_
    · rw [paths, modules]
      simpa using present
    · rw [paths]

theorem holds_of_compile (h : compile tree settings package base = .ok compilation) :
    ∃ made, plan tree settings package base = .ok made ∧ made.Follows settings base ∧
      compilation.Holds tree settings made := by
  obtain ⟨made, planned, h⟩ := bind_eq_ok.1 h
  have follows := plan_follows planned
  refine ⟨made, planned, follows, ?_⟩
  cases mode : settings.mode with
  | single => exact compileLinked_eq_ok follows mode (by simpa [mode] using h)
  | multi => exact compileReached_eq_ok follows mode (by simpa [mode] using h)
  | mirror => exact compileListed_eq_ok follows mode (by simpa [mode] using h)

theorem paths_of_forall₂ {files : List Location} {assets : List Asset}
    (each : List.Forall₂ (fun (file : Location) (asset : Asset) => asset.path = file.relative ∧
      tree.readText file.path = .ok asset.contents) files assets) :
    assets.map Asset.path = files.map Location.relative := by
  rw [← List.forall₂_eq_eq_eq, List.forall₂_map_left_iff, List.forall₂_map_right_iff]
  exact (each.imp fun file asset found => found.1.symm).flip.imp fun _ _ => Eq.symm

theorem Compilation.Holds.listed (holds : compilation.Holds tree settings made)
    (mirror : settings.mode = .mirror) :
    compilation.assets.map Asset.path
        = (componentFiles tree made.resolver.root made.resolver.extension).map Location.relative ∧
      compilation.Told made := by
  simp only [Compilation.Holds, mirror] at holds
  obtain ⟨-, -, each, -, told⟩ := holds
  exact ⟨paths_of_forall₂ each, told⟩

theorem Compilation.Holds.told (holds : compilation.Holds tree settings made)
    (several : settings.mode ≠ .single) : compilation.Told made := by
  cases mode : settings.mode with
  | single => contradiction
  | multi =>
    simp only [Compilation.Holds, mode] at holds
    obtain ⟨-, -, -, -, -, told⟩ := holds
    exact told
  | mirror => exact (holds.listed mode).2

theorem Compilation.Holds.parts_nodup_of_other (holds : compilation.Holds tree settings made)
    (follows : made.Follows settings base) (other : settings.mode ≠ .mirror) :
    (compilation.assets.map Asset.parts).Nodup := by
  cases mode : settings.mode with
  | single =>
    simp only [Compilation.Holds, mode] at holds
    obtain ⟨-, asset, -, assets, -⟩ := holds
    simp [assets]
  | multi =>
    simp only [Compilation.Holds, mode] at holds
    obtain ⟨graph, reached, assets, -⟩ := holds
    rw [assets, List.map_map]
    exact (spans_of_reach reached).relatives_apart follows.entry
  | mirror => contradiction

def twoFilesSettings : Settings := { entryPoint := some "main", mode := .mirror }

def twoFilesTree : FileTree :=
  (FileTree.atHome []).put ["app"] .directory
    |>.put ["app", "components"] .directory
    |>.put ["app", "components", "main.gjs"] (.file (.text "export default 1;"))
    |>.put ["app", "components", "form"] .directory
    |>.put ["app", "components", "form", "index.gjs"] (.file (.text "export default 2;"))

def twoFilesBase : Text := "http://localhost:4205"

def twoFilesCompilation : Compilation where
  manifest :=
    { dependencies := some [⟨"./Form/index",
        "http://localhost:4205/assets/extension-files/form/index.gjs", "0.0.0", extensionKind⟩]
      main := ⟨"./Main", "http://localhost:4205/assets/extension-files/main.gjs", "0.0.0",
        extensionKind⟩ }
  assets := [⟨"form/index.gjs", "export default 2;"⟩, ⟨"main.gjs", "export default 1;"⟩]
  warnings := []
  modules := ["form/index.gjs", "main.gjs"]

def twoFilesPlan : Plan where
  resolver := ⟨twoFilesSettings.modulesPath, "app/components", "gjs"⟩
  entry := ⟨⟨"./app/components/main.gjs"⟩, "main.gjs"⟩
  base := twoFilesBase
  release :=
    { space := "app/components", publicUrl := "assets/extension-files", version := "0.0.0"
      extension := "gjs", mode := .mirror }

def twoFilesFound : List Location :=
  [⟨⟨"./app/components/form/index.gjs"⟩, "form/index.gjs"⟩,
    ⟨⟨"./app/components/main.gjs"⟩, "main.gjs"⟩]

theorem two_files_found :
    componentFiles twoFilesTree twoFilesSettings.modulesPath "gjs" = twoFilesFound := by
  have located : twoFilesTree.locate twoFilesSettings.modulesPath
      = .ok (["app", "components"] : Key) := by decide +kernel
  have below : twoFilesTree.filesBelow (["app", "components"] : Key)
      = [((["form", "index.gjs"] : Key), .text "export default 2;"),
        ((["main.gjs"] : Key), .text "export default 1;")] :=
    List.mergeSort_of_pairwise (by decide +kernel)
  rw [componentFiles, listFiles, located]
  dsimp only
  rw [below]
  exact List.mergeSort_of_pairwise (by decide +kernel)

theorem two_files_compiled :
    compile twoFilesTree twoFilesSettings {} twoFilesBase = .ok twoFilesCompilation := by
  have planned : plan twoFilesTree twoFilesSettings {} twoFilesBase = .ok twoFilesPlan := by
    decide +kernel
  refine bind_eq_ok.2 ⟨twoFilesPlan, planned, ?_⟩
  have found : componentFiles twoFilesTree twoFilesPlan.resolver.root
      twoFilesPlan.resolver.extension = twoFilesFound := two_files_found
  change compileListed twoFilesTree twoFilesPlan = _
  rw [compileListed, found]
  decide +kernel

end ComponentBundle.Bundle
