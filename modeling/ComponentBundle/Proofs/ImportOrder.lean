import Mathlib.Data.List.Perm.Basic
import ComponentBundle.Proofs.Walk

/-!
What the order of the modules says about their imports. While a walk is inside of some
modules, those come after all it is done with, the innermost first, and a module that it
comes to is put in between: the order of two modules never changes. So an import leads to
a module that is open exactly if it leads to one that comes no earlier in the end, and an
open module reaches the innermost one, which closes a cycle.
-/
namespace ComponentBundle.Project
open ComponentBundle.Text ComponentBundle.Files Relation

section
variable {α : Type} [BEq α] [LawfulBEq α] {before behind : List α} {new a b : α}

theorem idxOf_insert_lt_iff (fresh : new ∉ before ++ behind) (ha : a ∈ before ++ behind)
    (hb : b ∈ before ++ behind) :
    (before ++ new :: behind).idxOf a < (before ++ new :: behind).idxOf b ↔
      (before ++ behind).idxOf a < (before ++ behind).idxOf b := by
  have shift : ∀ c ∈ before ++ behind, (before ++ new :: behind).idxOf c
      = if c ∈ before then before.idxOf c else before.length + behind.idxOf c + 1 := by
    intro c member
    have other : new ≠ c := fun same => fresh (same ▸ member)
    rw [List.idxOf_append]
    split
    · rfl
    · rw [List.idxOf_cons_ne _ other]
      omega
  have bound : ∀ c ∈ before, before.idxOf c < before.length :=
    fun c member => List.idxOf_lt_length_of_mem member
  rw [shift a ha, shift b hb, List.idxOf_append, List.idxOf_append]
  by_cases inA : a ∈ before <;> by_cases inB : b ∈ before
  · simp [inA, inB]
  · have := bound a inA
    simp only [inA, inB, ↓reduceIte]
    omega
  · have := bound b inB
    simp only [inA, inB, ↓reduceIte]
    omega
  · simp only [inA, inB, ↓reduceIte]
    omega

theorem idxOf_lt_middle_iff (distinct : (before ++ b :: behind).Nodup) :
    (before ++ b :: behind).idxOf a < (before ++ b :: behind).idxOf b ↔ a ∈ before := by
  have apart : b ∉ before := fun member =>
    (List.nodup_append.1 distinct).2.2 b member b List.mem_cons_self rfl
  have place : (before ++ b :: behind).idxOf b = before.length := by
    rw [List.idxOf_append_of_notMem apart, List.idxOf_cons_self, Nat.add_zero]
  rw [place]
  constructor
  · intro early
    by_contra absent
    rw [List.idxOf_append_of_notMem absent] at early
    omega
  · intro member
    rw [List.idxOf_append_of_mem member]
    exact List.idxOf_lt_length_of_mem member

end

variable {resolver : Resolver} {tree : FileTree} {entry : Location}

def importWarnings (resolver : Resolver) (tree : FileTree) (order : List ModuleKey)
    (importer : Component) (specifier : Text) : List Warning :=
  match resolver.resolve tree specifier with
  | none => [.moduleNotFound specifier importer.relative]
  | some dependency =>
    if order.idxOf dependency.key < order.idxOf importer.key then []
    else [.cyclicDependency importer.relative dependency.relative]

def KeyImports (resolver : Resolver) (tree : FileTree) (importer dependency : ModuleKey) : Prop :=
  ∃ a b, Imports resolver tree a b ∧ a.key = importer ∧ b.key = dependency

theorem OpenModule.imports (module : OpenModule resolver tree) {specifier : Text}
    (imported : specifier ∈ localImports resolver module.component.source)
    {dependency : Location} (resolved : resolver.resolve tree specifier = some dependency) :
    KeyImports resolver tree module.key dependency.key :=
  ⟨module.component.location, dependency, ⟨_, _, module.readable, imported, resolved⟩, rfl, rfl⟩

namespace Search

theorem edges_key_mem {search : Search resolver tree} {edge : Component × Text}
    (followed : edge ∈ search.edges) : edge.1.key ∈ search.keys := by
  apply List.mem_map_of_mem
  rw [edges, List.mem_append, List.mem_flatMap, List.mem_flatMap] at followed
  rw [components, List.mem_append, List.mem_map]
  rcases followed with ⟨component, inside, member⟩ | ⟨module, inside, member⟩
  · obtain ⟨specifier, -, rfl⟩ := List.mem_map.1 member
    exact Or.inl inside
  · obtain ⟨specifier, -, rfl⟩ := List.mem_map.1 member
    exact Or.inr ⟨module, inside, rfl⟩

theorem Moves.idxOf_lt_iff {search after : Search resolver tree} (move : Moves search after)
    {a b : ModuleKey} (ha : a ∈ search.keys) (hb : b ∈ search.keys) :
    after.keys.idxOf a < after.keys.idxOf b ↔ search.keys.idxOf a < search.keys.idxOf b := by
  rcases move.components_eq_or_insert with
    ⟨same, -⟩ | ⟨inner, -, specifier, -, component, -, -, new, grown⟩
  · rw [keys, keys, same]
  · rw [keys, components, List.map_append] at new ha hb
    have inserted : after.keys = search.finished.map Component.key
        ++ component.key :: (search.opened.map OpenModule.component).map Component.key := by
      rw [keys, grown, List.map_append, List.map_cons]
    rw [inserted, keys, components, List.map_append]
    exact idxOf_insert_lt_iff new ha hb

/-- An import leads to a module that comes no earlier exactly if that one is open. -/
theorem Follows.idxOf_lt_iff {search after : Search resolver tree}
    {inner : OpenModule resolver tree} {outer : List (OpenModule resolver tree)}
    {before : List ModuleKey} {specifier : Text}
    (follows : Follows search after inner outer before specifier) (distinct : after.keys.Nodup)
    {dependency : Location} :
    after.keys.idxOf dependency.key < after.keys.idxOf inner.component.key ↔
      dependency.key ∈ before := by
  have split : after.keys = before ++ inner.component.key :: outer.map OpenModule.key :=
    follows.keys
  rw [split] at distinct ⊢
  exact idxOf_lt_middle_iff distinct

theorem Follows.warnings {search after : Search resolver tree}
    {inner : OpenModule resolver tree} {outer : List (OpenModule resolver tree)}
    {before : List ModuleKey} {specifier : Text}
    (follows : Follows search after inner outer before specifier) (distinct : after.keys.Nodup) :
    after.warnings = search.warnings
      ++ importWarnings resolver tree after.keys inner.component specifier := by
  unfold importWarnings
  split
  · rename_i unresolved
    exact follows.missing unresolved
  · rename_i dependency resolved
    rcases follows.found dependency resolved with ⟨early, same⟩ | ⟨inside, told⟩
    · rw [if_pos ((follows.idxOf_lt_iff distinct).2 early), same, List.append_nil]
    · have late : dependency.key ∉ before := fun early =>
        (List.nodup_append.1 (follows.keys ▸ distinct)).2.2 _ early _ inside rfl
      rw [if_neg fun before => late ((follows.idxOf_lt_iff distinct).1 before), told]

/-- What a walk keeps besides: its warnings are those that the imports followed call for,
    and every module that is open leads to those inside of it. -/
structure Accounted (search : Search resolver tree) : Prop where
  told : search.warnings.Perm (search.edges.flatMap fun edge =>
    importWarnings resolver tree search.keys edge.1 edge.2)
  nested : search.opened.Pairwise fun inner outer =>
    TransGen (KeyImports resolver tree) outer.key inner.key
  closing : ∀ edge ∈ search.edges, ∀ dependency,
    resolver.resolve tree edge.2 = some dependency →
    ¬ search.keys.idxOf dependency.key < search.keys.idxOf edge.1.key →
    TransGen (KeyImports resolver tree) edge.1.key edge.1.key

theorem Accounted.start (module : OpenModule resolver tree) (fresh : module.followed = []) :
    Accounted (Search.start module) := by
  have none_ : (Search.start module).edges = [] := by simp [edges, Search.start, fresh]
  refine ⟨?_, ?_, ?_⟩
  · rw [none_]
    exact List.Perm.refl []
  · simp [Search.start]
  · simp [none_]

theorem Moves.nested {search after : Search resolver tree} (move : Moves search after)
    (nested : search.opened.Pairwise fun inner outer =>
      TransGen (KeyImports resolver tree) outer.key inner.key) :
    after.opened.Pairwise fun inner outer =>
      TransGen (KeyImports resolver tree) outer.key inner.key := by
  cases move with
  | leave ended => exact (List.pairwise_cons.1 nested).2
  | missing next unresolved => exact List.pairwise_cons.2 (List.pairwise_cons.1 nested)
  | cycle next resolved inside => exact List.pairwise_cons.2 (List.pairwise_cons.1 nested)
  | known next resolved outside old => exact List.pairwise_cons.2 (List.pairwise_cons.1 nested)
  | enter next resolved outside new read =>
    rename_i specifier left dependency outer module done led told inner
    obtain ⟨-, place, -, -⟩ := OpenModule.at?_eq_ok read
    have key : module.key = dependency.key := congrArg Location.key place
    have edge : KeyImports resolver tree inner.key module.key :=
      key ▸ inner.imports (inner.imported next) resolved
    refine List.pairwise_cons.2 ⟨?_, List.pairwise_cons.2 (List.pairwise_cons.1 nested)⟩
    intro other around
    rcases List.mem_cons.1 around with rfl | outside
    · exact .single edge
    · exact ((List.pairwise_cons.1 nested).1 other outside).tail edge

theorem Accounted.moves {search after : Search resolver tree} (explored : Explored entry search)
    (accounted : Accounted search) (move : Moves search after) : Accounted after := by
  have distinct := (explored.moves move).distinct
  have kept : ∀ edge ∈ search.edges, importWarnings resolver tree after.keys edge.1 edge.2
      = importWarnings resolver tree search.keys edge.1 edge.2 := by
    intro edge followed
    unfold importWarnings
    split
    · rfl
    · rename_i dependency resolved
      simp only [move.idxOf_lt_iff (explored.covered edge followed dependency resolved)
        (edges_key_mem followed)]
  have closing : ∀ edge ∈ search.edges, ∀ dependency,
      resolver.resolve tree edge.2 = some dependency →
      ¬ after.keys.idxOf dependency.key < after.keys.idxOf edge.1.key →
      TransGen (KeyImports resolver tree) edge.1.key edge.1.key := by
    intro edge followed dependency resolved late
    rw [move.idxOf_lt_iff (explored.covered edge followed dependency resolved)
      (edges_key_mem followed)] at late
    exact accounted.closing edge followed dependency resolved late
  rcases move.leaves_or_follows with
    ⟨-, edges, -, told⟩ | ⟨inner, outer, before, specifier, follows⟩
  · refine ⟨?_, move.nested accounted.nested, ?_⟩
    · rw [told, edges, List.flatMap_congr kept]
      exact accounted.told
    · rw [edges]
      exact closing
  · refine ⟨?_, move.nested accounted.nested, ?_⟩
    · rw [follows.warnings distinct]
      refine List.perm_append_comm.trans (.trans ?_ (follows.edges.flatMap_right _).symm)
      rw [List.flatMap_cons, List.flatMap_congr kept]
      exact accounted.told.append_left _
    · intro edge followed dependency resolved late
      rcases List.mem_cons.1 (follows.edges.mem_iff.1 followed) with rfl | old
      · rw [follows.idxOf_lt_iff distinct] at late
        have inside := ((follows.found dependency resolved).resolve_left (late ·.1)).1
        have edge := inner.imports follows.imported resolved
        rw [List.map_cons, List.mem_cons] at inside
        rcases inside with itself | around
        · rw [itself] at edge
          exact .single edge
        · obtain ⟨module, outside, key⟩ := List.mem_map.1 around
          have nested := follows.opened ▸ accounted.nested
          exact .head edge (key ▸ (List.pairwise_cons.1 nested).1 module outside)
      · exact closing edge old dependency resolved late

end Search

def Acyclic (resolver : Resolver) (tree : FileTree) (entry : Location) : Prop :=
  ∀ location, Reachable resolver tree entry location →
    ¬ TransGen (KeyImports resolver tree) location.key location.key

def ModuleGraph.keys (graph : ModuleGraph) : List ModuleKey :=
  graph.modules.map ReachedModule.key

def ModuleGraph.position (graph : ModuleGraph) (key : ModuleKey) : Nat := graph.keys.idxOf key

def ModuleGraph.hasCycleWarning (graph : ModuleGraph) : Prop :=
  ∃ importer dependency, Warning.cyclicDependency importer dependency ∈ graph.warnings

variable {graph : ModuleGraph}

theorem reach_accounted (h : reach resolver tree entry = .ok graph) :
    (graph.warnings.Perm (graph.modules.flatMap fun node =>
        (localImports resolver node.component.source).flatMap
          (importWarnings resolver tree graph.keys node.component))) ∧
      ∀ node ∈ graph.modules, ∀ specifier ∈ localImports resolver node.component.source,
        ∀ dependency, resolver.resolve tree specifier = some dependency →
          ¬ graph.position dependency.key < graph.position node.key →
            TransGen (KeyImports resolver tree) node.key node.key := by
  obtain ⟨search, accounted, explored, closed, rfl⟩ := reach_keeps
    Search.Accounted (fun opened => .start _ (OpenModule.at?_eq_ok opened).2.2.1)
    (fun explored accounted move => accounted.moves explored move) h
  have keys : ModuleGraph.keys ⟨search.finished.map search.reachedModule,
      search.finished.length - 1, search.warnings⟩ = search.keys := by
    simp [ModuleGraph.keys, Search.keys, Search.components, closed, ReachedModule.key,
      Search.reachedModule, Function.comp_def]
  constructor
  · refine accounted.told.trans (.of_eq ?_)
    rw [keys]
    simp [Search.edges, closed, List.flatMap_assoc, List.flatMap_map, Search.reachedModule]
  · intro node member specifier imported dependency resolved
    obtain ⟨component, inside, rfl⟩ := List.mem_map.1 member
    have edge := (Search.mem_edges_of_closed closed).2 ⟨inside, imported⟩
    rw [ModuleGraph.position, ModuleGraph.position, keys]
    exact accounted.closing _ edge dependency resolved

theorem cyclicDependency_mem_iff {order : List ModuleKey} {component : Component}
    {specifier importer dependency : Text} :
    .cyclicDependency importer dependency ∈ importWarnings resolver tree order component specifier ↔
      ∃ location, resolver.resolve tree specifier = some location ∧
        ¬ order.idxOf location.key < order.idxOf component.key ∧
        importer = component.relative ∧ dependency = location.relative := by
  unfold importWarnings
  split
  · rename_i unresolved
    simp [unresolved]
  · rename_i location resolved
    split
    · rename_i early
      simp only [List.not_mem_nil, false_iff]
      rintro ⟨other, same, late, -⟩
      obtain rfl := Option.some.inj (resolved.symm.trans same)
      exact late early
    · rename_i late
      simp [resolved, Nat.le_of_not_lt late]

theorem ModuleGraph.Spans.imports_of_key {node : ReachedModule}
    (spans : graph.Spans resolver tree entry) (member : node ∈ graph.modules) {key : ModuleKey}
    (h : KeyImports resolver tree node.key key) :
    ∃ specifier ∈ localImports resolver node.component.source, ∃ dependency,
      resolver.resolve tree specifier = some dependency ∧ dependency.key = key := by
  obtain ⟨a, b, ⟨component, specifier, read, imported, resolved⟩, same, rfl⟩ := h
  have source : component.source = node.component.source :=
    FileTree.readText_unique same (readComponent_source read) (spans.reached node member).2
  exact ⟨specifier, source ▸ imported, b, resolved, rfl⟩

def ModuleGraph.Ordered (resolver : Resolver) (tree : FileTree) (graph : ModuleGraph) : Prop :=
  ∀ node ∈ graph.modules, ∀ specifier ∈ localImports resolver node.component.source,
    ∀ dependency, resolver.resolve tree specifier = some dependency →
      graph.position dependency.key < graph.position node.key

theorem ModuleGraph.Ordered.transGen (h : reach resolver tree entry = .ok graph)
    (ordered : graph.Ordered resolver tree) {node : ReachedModule} (member : node ∈ graph.modules)
    {key : ModuleKey} (path : TransGen (KeyImports resolver tree) node.key key) :
    key ∈ graph.keys ∧ graph.position key < graph.position node.key := by
  have spans := spans_of_reach h
  have step : ∀ other ∈ graph.modules, ∀ next, KeyImports resolver tree other.key next →
      next ∈ graph.keys ∧ graph.position next < graph.position other.key := by
    intro other inside next edge
    obtain ⟨specifier, imported, dependency, resolved, rfl⟩ := spans.imports_of_key inside edge
    exact ⟨List.mem_map.2 (spans.leads inside imported resolved),
      ordered other inside specifier imported dependency resolved⟩
  induction path with
  | single edge => exact step node member _ edge
  | tail path edge ih =>
    obtain ⟨other, inside, key⟩ := List.mem_map.1 ih.1
    obtain ⟨known, early⟩ := step other inside _ (key ▸ edge)
    exact ⟨known, Nat.lt_trans early (key ▸ ih.2)⟩

theorem ordered_iff_acyclic (h : reach resolver tree entry = .ok graph) :
    graph.Ordered resolver tree ↔ Acyclic resolver tree entry := by
  have spans := spans_of_reach h
  constructor
  · intro ordered location reached cycle
    obtain ⟨node, member, key, -⟩ := spans.covers location reached
    have early := (ordered.transGen h member (key ▸ cycle)).2
    rw [key] at early
    exact Nat.lt_irrefl _ early
  · intro acyclic node member specifier imported dependency resolved
    by_contra late
    exact acyclic _ (spans.reached node member).1
      ((reach_accounted h).2 node member specifier imported dependency resolved late)

theorem ordered_iff_no_cycle_warning (h : reach resolver tree entry = .ok graph) :
    graph.Ordered resolver tree ↔ ¬ graph.hasCycleWarning := by
  have told := (reach_accounted h).1
  constructor
  · rintro ordered ⟨importer, dependency, warned⟩
    obtain ⟨node, member, inside⟩ := List.mem_flatMap.1 (told.mem_iff.1 warned)
    obtain ⟨specifier, imported, inside⟩ := List.mem_flatMap.1 inside
    obtain ⟨location, resolved, late, -⟩ := cyclicDependency_mem_iff.1 inside
    exact late (ordered node member specifier imported location resolved)
  · intro none_ node member specifier imported dependency resolved
    by_contra late
    refine none_ ⟨node.relative, dependency.relative, told.mem_iff.2 ?_⟩
    exact List.mem_flatMap.2 ⟨node, member, List.mem_flatMap.2 ⟨specifier, imported,
      cyclicDependency_mem_iff.2 ⟨dependency, resolved, late, rfl, rfl⟩⟩⟩

/-- The warnings of a graph are those that its imports call for: one for every import that
    leads nowhere or to a module that comes no earlier. There is none of the second kind
    exactly if the imports have no cycle, and then every module comes after all that it
    imports. -/
structure ModuleGraph.Accounts (resolver : Resolver) (tree : FileTree) (entry : Location)
    (graph : ModuleGraph) : Prop where
  warned : graph.warnings.Perm (graph.modules.flatMap fun node =>
    (localImports resolver node.component.source).flatMap fun specifier =>
      match resolver.resolve tree specifier with
      | none => [.moduleNotFound specifier node.relative]
      | some dependency =>
        if graph.position dependency.key < graph.position node.key then []
        else [.cyclicDependency node.relative dependency.relative])
  known : ∀ node ∈ graph.modules, ∀ specifier ∈ localImports resolver node.component.source,
    ∀ dependency, resolver.resolve tree specifier = some dependency →
      ∃ target ∈ graph.modules, target.key = dependency.key
  acyclic : ¬ graph.hasCycleWarning ↔ Acyclic resolver tree entry
  ordered : Acyclic resolver tree entry → graph.Ordered resolver tree

theorem warnings_account_for_imports (h : reach resolver tree entry = .ok graph) :
    graph.Accounts resolver tree entry where
  warned := (reach_accounted h).1
  known := fun _ member _ imported _ resolved =>
    (spans_of_reach h).leads member imported resolved
  acyclic := (ordered_iff_no_cycle_warning h).symm.trans (ordered_iff_acyclic h)
  ordered := (ordered_iff_acyclic h).2

/-! Two modules that import each other, one of them itself as well. -/

def ringResolver : Resolver := ⟨⟨"parts"⟩, "app", "gjs"⟩

def ringEntry : ReachedModule :=
  ⟨⟨ringResolver.locate "list.gjs", "import Item from 'app/item';\nimport Gone from './gone';\n"⟩,
    ["./list.gjs", "app/list", "app/list.gjs"]⟩

def ringItem : ReachedModule :=
  ⟨⟨ringResolver.locate "item.gjs", "import List from './list.gjs';\nimport Self from './item';\n"⟩,
    ["app/item", "./item", "app/item.gjs"]⟩

def ringTree : FileTree :=
  (FileTree.atHome []).put ["parts"] .directory
    |>.put ["parts", "list.gjs"] (.file (.text ringEntry.component.source))
    |>.put ["parts", "item.gjs"] (.file (.text ringItem.component.source))

def ringGraph : ModuleGraph where
  modules := [ringItem, ringEntry]
  entry := 1
  warnings := [.cyclicDependency "item.gjs" "list.gjs", .cyclicDependency "item.gjs" "item.gjs",
    .moduleNotFound "./gone" "list.gjs"]

theorem ring_warned :
    reach ringResolver ringTree ringEntry.component.location = .ok ringGraph ∧
      ringGraph.Accounts ringResolver ringTree ringEntry.component.location := by
  have walked : reach ringResolver ringTree ringEntry.component.location = .ok ringGraph :=
    reach_of_reachWithin (n := 10) (by decide +kernel)
  exact ⟨walked, warnings_account_for_imports walked⟩

end ComponentBundle.Project
