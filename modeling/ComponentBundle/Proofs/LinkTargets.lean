import ComponentBundle.Proofs.SharedScope
import ComponentBundle.Proofs.Walk

/-!
Which module an import is linked to. A module of a graph is named by the specifiers that
led to it and by those derived from its path. The latter need not lead to it: the
directory of an index file also names the file beside that directory, which comes first
where specifiers are resolved. Linking goes by the last module that has the specifier.
-/
namespace ComponentBundle.Project
open ComponentBundle.Text ComponentBundle.Files

variable {resolver : Resolver} {tree : FileTree} {entry : Location}

theorem mem_foldl_insertNew {start items : List Text} {item : Text} :
    item ∈ items.foldl insertNew start ↔ item ∈ start ∨ item ∈ items := by
  induction items generalizing start with
  | nil => simp
  | cons first more ih =>
    rw [List.foldl_cons, ih, insertNew]
    split
    · rename_i old
      have inside : first ∈ start := by simpa using old
      grind
    · grind

def ledBy (resolver : Resolver) (tree : FileTree) (specifier : Text) : Option (ModuleKey × Text) :=
  (resolver.resolve tree specifier).map fun dependency => (dependency.key, specifier)

theorem ledBy_eq_some_iff {specifier : Text} {led : ModuleKey × Text} :
    ledBy resolver tree specifier = some led ↔ led.2 = specifier ∧
      ∃ dependency, resolver.resolve tree specifier = some dependency ∧ dependency.key = led.1 := by
  obtain ⟨key, name⟩ := led
  simp only [ledBy, Option.map_eq_some_iff, Prod.mk.injEq]
  grind

namespace Search

def Recorded (search : Search resolver tree) : Prop :=
  search.aliases.Perm (search.edges.filterMap fun edge => ledBy resolver tree edge.2)

theorem Recorded.start (module : OpenModule resolver tree) (fresh : module.followed = []) :
    Recorded (Search.start module) := by
  simp [Recorded, edges, Search.start, fresh]

theorem Recorded.moves {search after : Search resolver tree} (recorded : Recorded search)
    (move : Moves search after) : Recorded after := by
  unfold Recorded at recorded ⊢
  rcases move.leaves_or_follows with
    ⟨-, edges, aliases, -⟩ | ⟨inner, outer, before, specifier, follows⟩
  · rw [edges, aliases]
    exact recorded
  · have aliases : after.aliases = search.aliases ++ (ledBy resolver tree specifier).toList :=
      follows.aliases
    have edges := follows.edges.filterMap fun edge => ledBy resolver tree edge.2
    rw [aliases]
    refine List.perm_append_comm.trans (.trans ?_ edges.symm)
    rw [List.filterMap_cons]
    cases ledBy resolver tree specifier with
    | none => exact recorded
    | some led => exact recorded.cons led

end Search

theorem mem_specifiers_iff {graph : ModuleGraph} (h : reach resolver tree entry = .ok graph)
    {node : ReachedModule} (member : node ∈ graph.modules) {specifier : Text} :
    specifier ∈ node.specifiers ↔ specifier ∈ resolver.ownSpecifiers node.relative ∨
      (∃ importer ∈ graph.modules, specifier ∈ localImports resolver importer.component.source) ∧
        ∃ dependency, resolver.resolve tree specifier = some dependency ∧
          dependency.key = node.key := by
  obtain ⟨search, recorded, explored, closed, rfl⟩ := reach_keeps
    Search.Recorded (fun opened => .start _ (OpenModule.at?_eq_ok opened).2.2.1)
    (fun _ recorded move => recorded.moves move) h
  obtain ⟨component, inside, rfl⟩ := List.mem_map.1 member
  have led : specifier ∈ search.aliasesOf component.key ↔
      (component.key, specifier) ∈ search.aliases := by
    simp [Search.aliasesOf, mem_foldl_insertNew]
  have own : specifier ∈ (search.reachedModule component).specifiers ↔
      (component.key, specifier) ∈ search.aliases ∨
        specifier ∈ resolver.ownSpecifiers component.relative := by
    rw [← led]
    exact mem_foldl_insertNew
  rw [own, or_comm, recorded.mem_iff, List.mem_filterMap]
  apply or_congr_right
  constructor
  · rintro ⟨⟨importer, other⟩, edge, leads⟩
    obtain ⟨rfl, dependency, resolved, key⟩ := ledBy_eq_some_iff.1 leads
    obtain ⟨done, imported⟩ := (Search.mem_edges_of_closed closed).1 edge
    exact ⟨⟨_, List.mem_map_of_mem done, imported⟩, dependency, resolved, key⟩
  · rintro ⟨⟨importer, known, imported⟩, dependency, resolved, key⟩
    obtain ⟨source, done, rfl⟩ := List.mem_map.1 known
    exact ⟨(source, specifier), (Search.mem_edges_of_closed closed).2 ⟨done, imported⟩,
      ledBy_eq_some_iff.2 ⟨rfl, dependency, resolved, key⟩⟩

theorem mem_specifiers_of_resolved {graph : ModuleGraph}
    (h : reach resolver tree entry = .ok graph) {importer node : ReachedModule}
    (member : importer ∈ graph.modules) (inside : node ∈ graph.modules) {specifier : Text}
    (imported : specifier ∈ localImports resolver importer.component.source)
    {dependency : Location} (resolved : resolver.resolve tree specifier = some dependency) :
    specifier ∈ node.specifiers ↔
      specifier ∈ resolver.ownSpecifiers node.relative ∨ node.key = dependency.key := by
  rw [mem_specifiers_iff h inside]
  apply or_congr_right
  constructor
  · rintro ⟨-, target, same, key⟩
    obtain rfl := Option.some.inj (resolved.symm.trans same)
    exact key.symm
  · intro key
    exact ⟨⟨importer, member, imported⟩, dependency, resolved, key.symm⟩

end ComponentBundle.Project

namespace ComponentBundle.Bundle
open ComponentBundle.Text ComponentBundle.Files ComponentBundle.Module ComponentBundle.Project

theorem target?_append {before behind : List Identified} {specifier : Text} :
    target? (before ++ behind) specifier
      = (target? behind specifier).or (target? before specifier) := by
  simp only [target?, List.filter_append, List.getLast?_append]
  cases (behind.filter fun entry => entry.1.specifiers.contains specifier).getLast? <;> rfl

theorem target?_eq_none_iff {modules : List Identified} {specifier : Text} :
    target? modules specifier = none ↔ ∀ entry ∈ modules, specifier ∉ entry.1.specifiers := by
  simp [target?]

theorem mem_of_target? {modules : List Identified} {specifier target : Text}
    (h : target? modules specifier = some target) : ∃ entry ∈ modules, entry.2 = target := by
  obtain ⟨entry, last, rfl⟩ := Option.map_eq_some_iff.1 h
  exact ⟨entry, (List.mem_filter.1 (List.mem_of_getLast? last)).1, rfl⟩

/-- A specifier leads to a module that has it if no module after that has it as well. -/
theorem target?_middle_iff {before behind : List Identified} {entry : Identified}
    {specifier : Text} (named : specifier ∈ entry.1.specifiers)
    (apart : ∀ other ∈ behind, other.2 ≠ entry.2) :
    target? (before ++ entry :: behind) specifier = some entry.2 ↔
      ∀ other ∈ behind, specifier ∉ other.1.specifiers := by
  have single : target? [entry] specifier = some entry.2 := by simp [target?, named]
  have split : target? (before ++ entry :: behind) specifier
      = (target? behind specifier).or (some entry.2) := by
    rw [target?_append, ← List.singleton_append, target?_append, single, Option.or_assoc]
    rfl
  rw [split, ← target?_eq_none_iff]
  constructor
  · intro same
    cases later : target? behind specifier with
    | none => rfl
    | some target =>
      obtain ⟨other, inside, rfl⟩ := mem_of_target? later
      rw [later] at same
      exact absurd (Option.some.inj same) (apart other inside)
  · intro none_
    rw [none_]
    rfl

theorem memberTarget_injective {a b imported : Text}
    (h : memberTarget a imported = memberTarget b imported) : a = b := by
  unfold memberTarget at h
  split at h
  · exact h
  · exact List.append_cancel_right h

theorem targets_eq_iff {statement : ImportStatement} {a b : Text} :
    ImportStatement.targets statement a = ImportStatement.targets statement b ↔
      statement.bindings.names = [] ∨ a = b := by
  constructor
  · intro same
    obtain ⟨whole, members⟩ := List.append_inj same (by simp)
    by_cases equal : a = b
    · exact Or.inr equal
    · have noWhole : statement.bindings.defaultName.toList
          ++ statement.bindings.namespaceName.toList = [] := by
        refine List.eq_nil_iff_forall_not_mem.2 fun name inside => equal ?_
        exact congrArg Prod.snd (List.map_inj_left.1 whole name inside)
      have noMembers : statement.bindings.members = [] := by
        refine List.eq_nil_iff_forall_not_mem.2 fun member inside => equal ?_
        exact memberTarget_injective (congrArg Prod.snd (List.map_inj_left.1 members member inside))
      exact Or.inl (by simp [Bindings.names, noWhole, noMembers])
  · rintro (none_ | rfl)
    · simp only [Bindings.names, List.append_eq_nil_iff, List.map_eq_nil_iff] at none_
      simp [ImportStatement.targets, none_]
    · rfl

theorem targets_eq_nil_iff {statement : ImportStatement} {target : Text} :
    ImportStatement.targets statement target = [] ↔ statement.bindings.names = [] := by
  simp [ImportStatement.targets, Bindings.names]

theorem targetsIn_eq_targets_iff {modules : List Identified} {statement : ImportStatement}
    {target : Text} :
    ImportStatement.targetsIn modules statement = ImportStatement.targets statement target ↔
      statement.bindings.names = [] ∨
        target? modules statement.specifier.specifier = some target := by
  unfold ImportStatement.targetsIn
  split
  · rename_i found leads
    rw [targets_eq_iff, leads, Option.some.injEq]
  · rename_i leads
    rw [eq_comm, targets_eq_nil_iff, leads]
    simp

variable {resolver : Resolver} {tree : FileTree} {entry : Location} {graph : ModuleGraph}

theorem identifiers_nodup {space : Text} (clear : ¬ Clash space graph) :
    (graph.modules.map fun node => identifierOf node.relative).Nodup := by
  have keys := identifierKeys_nodup clear
  rw [ModuleGraph.relatives, List.map_map] at keys
  apply List.Nodup.of_map identifierKey
  rwa [List.map_map]

/-- An import is bound to the module that it is resolved to unless a module that comes after
    that one derives the specifier from its path. -/
theorem bound_as_resolved_iff {artifact : Artifact}
    (walked : reach resolver tree entry = .ok graph)
    (made : link graph resolver.space = .ok artifact)
    {importer : ReachedModule} (member : importer ∈ graph.modules) {statement : ImportStatement}
    (imported : statement ∈ imports resolver.space importer.component.source)
    (isLocal : statement.isLocal) {dependency : Location}
    (resolved : resolver.resolve tree statement.specifier.specifier = some dependency) :
    artifact.declarations
        = (linkedModules resolver.space graph).mapIdx
            (declare (linkedModules resolver.space graph)) ∧
      ∃ before node behind, graph.modules = before ++ node :: behind ∧
        node.key = dependency.key ∧
        (ImportStatement.targetsIn (linkedModules resolver.space graph) statement
            = ImportStatement.targets statement (identifierOf node.relative) ↔
          statement.bindings.names = [] ∨ ∀ other ∈ behind,
            statement.specifier.specifier ∉ resolver.ownSpecifiers other.relative) := by
  obtain ⟨clear, rfl⟩ := link_eq_ok_iff.1 made
  have followed : statement.specifier.specifier ∈ localImports resolver importer.component.source :=
    List.mem_map_of_mem (List.mem_filter.2 ⟨imported, isLocal⟩)
  obtain ⟨node, inside, key⟩ := (spans_of_reach walked).leads member followed resolved
  obtain ⟨before, behind, split⟩ := List.append_of_mem inside
  have keys := (spans_of_reach walked).distinct
  have ids := identifiers_nodup clear
  rw [split, List.map_append, List.map_cons, List.nodup_append] at keys ids
  have otherKey : ∀ other ∈ behind, other.key ≠ node.key := fun other later same =>
    (List.nodup_cons.1 keys.2.1).1 (List.mem_map.2 ⟨other, later, same⟩)
  have otherId : ∀ other ∈ behind, identifierOf other.relative ≠ identifierOf node.relative :=
    fun other later same => (List.nodup_cons.1 ids.2.1).1 (List.mem_map.2 ⟨other, later, same⟩)
  have named : statement.specifier.specifier ∈ node.specifiers :=
    (mem_specifiers_of_resolved walked member inside followed resolved).2 (Or.inr key)
  have own : ∀ other ∈ behind, statement.specifier.specifier ∈ other.specifiers ↔
      statement.specifier.specifier ∈ resolver.ownSpecifiers other.relative := by
    intro other later
    have inside : other ∈ graph.modules :=
      split ▸ List.mem_append_right _ (List.mem_cons_of_mem _ later)
    rw [mem_specifiers_of_resolved walked member inside followed resolved, ← key]
    exact or_iff_left (otherKey other later)
  refine ⟨rfl, before, node, behind, split, key, ?_⟩
  rw [targetsIn_eq_targets_iff, linkedModules, split, List.map_append, List.map_cons]
  refine or_congr_right ((target?_middle_iff named ?_).trans ?_)
  · rw [List.forall_mem_map]
    exact otherId
  · rw [List.forall_mem_map]
    exact forall₂_congr fun other later => not_congr (own other later)

/-! A file that is imported by the index file of the directory beside it. -/

def formResolver : Resolver := ⟨⟨"parts"⟩, "app", "gjs"⟩

def formFile : ReachedModule :=
  ⟨⟨formResolver.locate "form.gjs", "export default 1;"⟩, ["app/form", "app/form.gjs"]⟩

def formIndex : ReachedModule :=
  ⟨⟨formResolver.locate "form/index.gjs", "import Form from 'app/form';\nexport default [Form];"⟩,
    ["app/form/index", "app/form/index.gjs", "app/form"]⟩

def formEntry : ReachedModule :=
  ⟨⟨formResolver.locate "main.gjs", "import Main from 'app/form/index';\nexport default [Main];"⟩,
    ["app/main", "app/main.gjs"]⟩

def formTree : FileTree :=
  (FileTree.atHome []).put ["parts"] .directory
    |>.put ["parts", "main.gjs"] (.file (.text formEntry.component.source))
    |>.put ["parts", "form.gjs"] (.file (.text formFile.component.source))
    |>.put ["parts", "form"] .directory
    |>.put ["parts", "form", "index.gjs"] (.file (.text formIndex.component.source))

def formGraph : ModuleGraph := ⟨[formFile, formIndex, formEntry], 2, []⟩

def formArtifact : Artifact where
  externals := []
  declarations := [
    ⟨"Form", "form.gjs", [], "1", []⟩,
    ⟨"FormIndex", "form/index.gjs", [], "[FormIndex]", []⟩,
    ⟨"Main", "main.gjs", [], "[FormIndex]", []⟩]
  exported := "Main"

theorem formTree_reached :
    reach formResolver formTree formEntry.component.location = .ok formGraph :=
  reach_of_reachWithin (n := 10) (by decide +kernel)

theorem formGraph_linked : link formGraph formResolver.space = .ok formArtifact := by
  decide +kernel

theorem index_imports_itself :
    reach formResolver formTree formEntry.component.location = .ok formGraph ∧
      link formGraph formResolver.space = .ok formArtifact ∧
      ∃ statement ∈ imports formResolver.space formIndex.component.source,
        statement.isLocal ∧
        formResolver.resolve formTree statement.specifier.specifier
          = some formFile.component.location ∧
        ImportStatement.targetsIn (linkedModules formResolver.space formGraph) statement
          ≠ ImportStatement.targets statement (identifierOf formFile.relative) ∧
        ImportStatement.targetsIn (linkedModules formResolver.space formGraph) statement
          = ImportStatement.targets statement (identifierOf formIndex.relative) :=
  ⟨formTree_reached, formGraph_linked, by decide +kernel⟩

def entryImport : ImportStatement where
  start := 0
  stop := 35
  specifier := ⟨18, 32, "app/form/index"⟩
  bindings := ⟨some "Main", none, []⟩
  isLocal := true

theorem index_imported_by_entry :
    formArtifact.declarations
        = (linkedModules formResolver.space formGraph).mapIdx
            (declare (linkedModules formResolver.space formGraph)) ∧
      ∃ before node behind, formGraph.modules = before ++ node :: behind ∧
        node.key = formIndex.key ∧
        (ImportStatement.targetsIn (linkedModules formResolver.space formGraph) entryImport
            = ImportStatement.targets entryImport (identifierOf node.relative) ↔
          entryImport.bindings.names = [] ∨ ∀ other ∈ behind,
            entryImport.specifier.specifier ∉ formResolver.ownSpecifiers other.relative) := by
  have member : formEntry ∈ formGraph.modules := by decide
  have imported : entryImport ∈ imports formResolver.space formEntry.component.source := by
    decide +kernel
  have resolved : formResolver.resolve formTree entryImport.specifier.specifier
      = some formIndex.component.location := by decide +kernel
  exact bound_as_resolved_iff formTree_reached formGraph_linked member imported rfl resolved

end ComponentBundle.Bundle
