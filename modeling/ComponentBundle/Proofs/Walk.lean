import Mathlib.Data.List.Nodup
import Mathlib.Logic.Relation
import ComponentBundle.Proofs.Destination
import ComponentBundle.Project.Reachable

/-!
A walk finds the modules that the entry reaches, and nothing else. What carries the proof
is that every import followed so far leads to a module that the walk came to; at the end
all imports of all modules found have been followed.
-/
namespace ComponentBundle.Project
open ComponentBundle.Text ComponentBundle.Files

/-- One module imports another if it can be read and one of its local imports is resolved
    to the other. -/
def Imports (resolver : Resolver) (tree : FileTree) (importer dependency : Location) : Prop :=
  ∃ component specifier, readComponent tree importer = .ok component ∧
    specifier ∈ localImports resolver component.source ∧
    resolver.resolve tree specifier = some dependency

abbrev Reachable (resolver : Resolver) (tree : FileTree) : Location → Location → Prop :=
  Relation.ReflTransGen (Imports resolver tree)

variable {resolver : Resolver} {tree : FileTree} {entry : Location}

theorem readComponent_iff {location : Location} {source : Text} :
    readComponent tree location = .ok ⟨location, source⟩ ↔
      tree.readText location.path = .ok source := by
  unfold readComponent
  split <;> rename_i h <;> simp [h]

theorem readComponent_eq_error {location : Location} {problem : Problem}
    (h : readComponent tree location = .error problem) :
    ∃ fault, tree.readText location.path = .error fault ∧
      problem = .file location.path.shown fault := by
  unfold readComponent at h
  split at h
  · contradiction
  · rename_i fault read
    exact ⟨fault, read, (Except.error.inj h).symm⟩

namespace Search

def edges (search : Search resolver tree) : List (Component × Text) :=
  (search.finished.flatMap fun component =>
      (localImports resolver component.source).map (component, ·))
    ++ search.opened.flatMap fun module => module.followed.map (module.component, ·)

theorem mem_edges_of_closed {search : Search resolver tree} (closed : search.opened = [])
    {component : Component} {specifier : Text} :
    (component, specifier) ∈ search.edges ↔
      component ∈ search.finished ∧ specifier ∈ localImports resolver component.source := by
  simp [edges, closed]

theorem edges_next {inner : OpenModule resolver tree} (next : inner.left = specifier :: left) :
    (edges ⟨inner.next next :: outer, done, led', told'⟩).Perm
      ((inner.component, specifier) :: edges ⟨inner :: outer, done, led, told⟩) := by
  have split : edges ⟨inner.next next :: outer, done, led', told'⟩
      = (done.flatMap fun component =>
            (localImports resolver component.source).map (component, ·))
          ++ inner.followed.map (inner.component, ·) ++ (inner.component, specifier)
          :: outer.flatMap fun module => module.followed.map (module.component, ·) := by
    simp [edges]
  rw [split]
  refine List.perm_middle.trans (.of_eq ?_)
  simp [edges]

/-- What it means to follow an import of the innermost module. The module that it leads to
    is open, or else stands with `before`, those that come before all open modules. -/
structure Follows (search after : Search resolver tree) (inner : OpenModule resolver tree)
    (outer : List (OpenModule resolver tree)) (before : List ModuleKey) (specifier : Text) :
    Prop where
  opened : search.opened = inner :: outer
  imported : specifier ∈ localImports resolver inner.component.source
  edges : after.edges.Perm ((inner.component, specifier) :: search.edges)
  keys : after.keys = before ++ (inner :: outer).map OpenModule.key
  aliases : after.aliases = search.aliases
    ++ ((resolver.resolve tree specifier).map fun dependency => (dependency.key, specifier)).toList
  missing : resolver.resolve tree specifier = none →
    after.warnings = search.warnings ++ [.moduleNotFound specifier inner.component.relative]
  found : ∀ dependency, resolver.resolve tree specifier = some dependency →
    (dependency.key ∈ before ∧ after.warnings = search.warnings) ∨
      (dependency.key ∈ (inner :: outer).map OpenModule.key ∧
        after.warnings = search.warnings
          ++ [.cyclicDependency inner.component.relative dependency.relative])

/-- A step follows one import, or none if it leaves a module. -/
theorem Moves.leaves_or_follows {search after : Search resolver tree}
    (move : Moves search after) :
    (after.components = search.components ∧ after.edges = search.edges ∧
        after.aliases = search.aliases ∧ after.warnings = search.warnings) ∨
      ∃ inner outer before specifier, Follows search after inner outer before specifier := by
  cases move with
  | leave ended =>
    rename_i outer done led told inner
    have all : inner.followed = localImports resolver inner.component.source := by
      simpa [ended] using inner.split
    exact Or.inl ⟨by simp [components], by simp [edges, all], rfl, rfl⟩
  | missing next unresolved =>
    rename_i specifier left outer done led told inner
    refine Or.inr ⟨inner, outer, done.map Component.key, specifier, rfl,
      inner.imported next, edges_next next, ?_, by simp [unresolved], ?_, ?_⟩
    · simp [keys, components, OpenModule.key]
    · exact fun _ => rfl
    · intro dependency resolved
      simp [unresolved] at resolved
  | cycle next resolved inside =>
    rename_i specifier left dependency outer done led told inner
    refine Or.inr ⟨inner, outer, done.map Component.key, specifier, rfl,
      inner.imported next, edges_next next, ?_, by simp [resolved], ?_, ?_⟩
    · simp [keys, components, OpenModule.key]
    · simp [resolved]
    · intro other same
      obtain rfl := Option.some.inj (resolved.symm.trans same)
      exact Or.inr ⟨inside, rfl⟩
  | known next resolved outside old =>
    rename_i specifier left dependency outer done led told inner
    refine Or.inr ⟨inner, outer, done.map Component.key, specifier, rfl,
      inner.imported next, edges_next next, ?_, by simp [resolved], ?_, ?_⟩
    · simp [keys, components, OpenModule.key]
    · simp [resolved]
    · intro other same
      obtain rfl := Option.some.inj (resolved.symm.trans same)
      exact Or.inl ⟨old, rfl⟩
  | enter next resolved outside new read =>
    rename_i specifier left dependency outer module done led told inner
    obtain ⟨-, place, fresh, -⟩ := OpenModule.at?_eq_ok read
    have added : List.Perm (edges ⟨inner.next next :: outer, done, led, told⟩)
        ((inner.component, specifier) :: edges ⟨inner :: outer, done, led, told⟩) :=
      edges_next next
    refine Or.inr ⟨inner, outer, done.map Component.key ++ [dependency.key], specifier, rfl,
      inner.imported next, by simpa [edges, fresh] using added, ?_, by simp [resolved], ?_, ?_⟩
    · simp [keys, components, OpenModule.key, Component.key, place]
    · simp [resolved]
    · intro other same
      obtain rfl := Option.some.inj (resolved.symm.trans same)
      exact Or.inl ⟨by simp, rfl⟩

theorem Follows.seen {search after : Search resolver tree} {inner : OpenModule resolver tree}
    {outer : List (OpenModule resolver tree)} {before : List ModuleKey} {specifier : Text}
    (follows : Follows search after inner outer before specifier) {dependency : Location}
    (resolved : resolver.resolve tree specifier = some dependency) :
    dependency.key ∈ after.keys := by
  rw [follows.keys, List.mem_append]
  exact (follows.found dependency resolved).imp And.left And.left

structure Explored (entry : Location) (search : Search resolver tree) : Prop where
  reached : ∀ component ∈ search.components, Reachable resolver tree entry component.location ∧
    readComponent tree component.location = .ok component
  distinct : search.keys.Nodup
  covered : ∀ edge ∈ search.edges, ∀ dependency, resolver.resolve tree edge.2 = some dependency →
    dependency.key ∈ search.keys
  last : search.components.getLast?.map Component.location = some entry

theorem Moves.keys_subset {search after : Search resolver tree} (move : Moves search after) :
    search.keys ⊆ after.keys := by
  intro key old
  rcases move.components_eq_or_insert with
    ⟨same, -⟩ | ⟨inner, -, specifier, -, component, -, -, -, grown⟩
  · rwa [keys, same]
  · rw [keys, components, List.map_append, List.mem_append] at old
    rw [keys, grown, List.map_append, List.map_cons, List.mem_append, List.mem_cons]
    exact old.imp_right Or.inr

theorem Explored.moves {search after : Search resolver tree} (explored : Explored entry search)
    (move : Moves search after) : Explored entry after := by
  have covered : ∀ edge ∈ after.edges, ∀ dependency,
      resolver.resolve tree edge.2 = some dependency → dependency.key ∈ after.keys := by
    intro edge followed dependency resolved
    rcases move.leaves_or_follows with ⟨-, same, -⟩ | ⟨inner, outer, before, specifier, follows⟩
    · exact move.keys_subset (explored.covered edge (same ▸ followed) dependency resolved)
    · rcases List.mem_cons.1 (follows.edges.mem_iff.1 followed) with rfl | old
      · exact follows.seen resolved
      · exact move.keys_subset (explored.covered edge old dependency resolved)
  rcases move.components_eq_or_insert with
    ⟨same, -⟩ | ⟨inner, open_, specifier, imported, component, resolved, read, new, grown⟩
  · refine ⟨?_, ?_, covered, ?_⟩
    · rw [same]
      exact explored.reached
    · rw [keys, same]
      exact explored.distinct
    · rw [same]
      exact explored.last
  · refine ⟨?_, ?_, covered, ?_⟩
    · intro other found
      rw [grown, List.mem_append, List.mem_cons] at found
      have old := fun member => explored.reached other (List.mem_append.2 member)
      rcases found with behind | rfl | around
      · exact old (Or.inl behind)
      · have importer := explored.reached inner.component
          (List.mem_append_right _ (List.mem_map_of_mem open_))
        exact ⟨importer.1.tail ⟨_, _, inner.readable, imported, resolved⟩, read⟩
      · exact old (Or.inr around)
    · have distinct := explored.distinct
      rw [keys, components, List.map_append] at distinct
      rw [keys, grown, List.map_append, List.map_cons, List.nodup_middle, List.nodup_cons]
      exact ⟨by simpa [keys, components] using new, distinct⟩
    · have last := explored.last
      rw [components] at last
      rw [grown]
      cases around : search.opened with
      | nil => simp [around] at open_
      | cons first more => simpa [around] using last

theorem Explored.start {module : OpenModule resolver tree}
    (h : OpenModule.at? resolver tree entry = .ok module) : Explored entry (start module) := by
  obtain ⟨read, place, fresh, -⟩ := OpenModule.at?_eq_ok h
  refine ⟨?_, ?_, ?_, ?_⟩
  · intro component found
    obtain rfl : component = module.component := by
      simpa [components, Search.start] using found
    exact place.symm ▸ ⟨.refl, read⟩
  · simp [keys, components, Search.start]
  · simp [edges, Search.start, fresh]
  · simp [components, Search.start, place]

theorem Explored.graph_eq {search : Search resolver tree} (explored : Explored entry search)
    (closed : search.opened = []) :
    search.graph entry = .ok ⟨search.finished.map search.reachedModule,
      search.finished.length - 1, search.warnings⟩ := by
  have last := explored.last
  rw [components, closed, List.map_nil, List.append_nil] at last
  exact graph_of_last last

end Search

theorem reach_keeps (holds : Search resolver tree → Prop) {graph : ModuleGraph}
    (start : ∀ {module}, OpenModule.at? resolver tree entry = .ok module →
      holds (Search.start module))
    (kept : ∀ {search after}, Search.Explored entry search → holds search →
      Search.Moves search after → holds after)
    (h : reach resolver tree entry = .ok graph) :
    ∃ search : Search resolver tree, holds search ∧ Search.Explored entry search ∧
      search.opened = [] ∧ graph = ⟨search.finished.map search.reachedModule,
        search.finished.length - 1, search.warnings⟩ := by
  cases opened : OpenModule.at? resolver tree entry with
  | error problem => simp [reach, opened, bind, Except.bind] at h
  | ok module =>
    cases ended : (Search.start module).run with
    | error problem => simp [reach, opened, ended, bind, Except.bind] at h
    | ok search =>
      simp only [reach, opened, ended, bind, Except.bind] at h
      obtain ⟨⟨held, explored⟩, closed⟩ := Search.run_keeps
        (fun search => holds search ∧ Search.Explored entry search)
        (fun both move => ⟨kept both.2 both.1 move, both.2.moves move⟩)
        ⟨start opened, Search.Explored.start opened⟩ ended
      rw [explored.graph_eq closed] at h
      exact ⟨search, held, explored, closed, (Except.ok.inj h).symm⟩

theorem reach_eq_error {problem : Problem} (h : reach resolver tree entry = .error problem) :
    ∃ location, Reachable resolver tree entry location ∧
      readComponent tree location = .error problem := by
  cases opened : OpenModule.at? resolver tree entry with
  | error fault =>
    simp only [reach, opened, bind, Except.bind] at h
    exact ⟨entry, .refl, Except.error.inj h ▸ OpenModule.at?_eq_error opened⟩
  | ok module =>
    cases ended : (Search.start module).run with
    | error fault =>
      simp only [reach, opened, ended, bind, Except.bind] at h
      obtain ⟨last, explored, failed⟩ := Search.run_fails (Search.Explored entry)
        (fun explored move => explored.moves move) (Search.Explored.start opened) ended
      obtain ⟨inner, inside, specifier, left, dependency, resolved, unread⟩ :=
        Search.step_fails failed
      have importer := explored.reached inner.component
        (List.mem_append_right _ (List.mem_map_of_mem inside))
      have imported : specifier ∈ localImports resolver inner.component.source :=
        inner.split ▸ List.mem_append_right _ left
      exact ⟨dependency, importer.1.tail ⟨_, _, inner.readable, imported, resolved⟩,
        Except.error.inj h ▸ unread⟩
    | ok search =>
      simp only [reach, opened, ended, bind, Except.bind] at h
      obtain ⟨explored, closed⟩ := Search.run_keeps (Search.Explored entry)
        (fun explored move => explored.moves move) (Search.Explored.start opened) ended
      rw [explored.graph_eq closed] at h
      contradiction

/-- What a walk that has ended is done with covers all that the entry reaches, whatever the
    spelling a module is reached by. -/
theorem Search.Explored.covers {search : Search resolver tree}
    (explored : Search.Explored entry search) (closed : search.opened = []) {location : Location}
    (reached : Reachable resolver tree entry location) :
    ∃ component ∈ search.finished, component.key = location.key ∧
      tree.readText location.path = .ok component.source := by
  have finished : search.components = search.finished := by simp [Search.components, closed]
  induction reached with
  | refl =>
    obtain ⟨component, found, place⟩ := Option.map_eq_some_iff.1 explored.last
    have inside := List.mem_of_getLast? found
    refine ⟨component, finished ▸ inside, congrArg Location.key place, ?_⟩
    exact place ▸ readComponent_source (explored.reached component inside).2
  | tail path import_ ih =>
    rename_i importer dependency
    obtain ⟨known, inside, -, read⟩ := ih
    obtain ⟨component, specifier, found, imported, resolved⟩ := import_
    have same : known.source = component.source :=
      Except.ok.inj (read.symm.trans (readComponent_source found))
    have edge := (Search.mem_edges_of_closed closed).2 ⟨inside, same ▸ imported⟩
    obtain ⟨target, reachedTarget, key⟩ :=
      List.mem_map.1 (explored.covered _ edge dependency resolved)
    have readTarget := readComponent_source (explored.reached target reachedTarget).2
    exact ⟨target, finished ▸ reachedTarget, key,
      FileTree.readText_agrees key readTarget (Resolver.resolve_isFile resolved)⟩

/-- The graph holds the modules that the entry reaches, each once and with the text of its
    file, and the entry comes last. -/
structure ModuleGraph.Spans (resolver : Resolver) (tree : FileTree) (entry : Location)
    (graph : ModuleGraph) : Prop where
  distinct : (graph.modules.map ReachedModule.key).Nodup
  reached : ∀ node ∈ graph.modules, Reachable resolver tree entry node.component.location ∧
    tree.readText node.component.location.path = .ok node.component.source
  covers : ∀ location, Reachable resolver tree entry location →
    ∃ node ∈ graph.modules, node.key = location.key ∧
      tree.readText location.path = .ok node.component.source
  entryAt : graph.modules[graph.entry]?.map (·.component.location) = some entry
  entryLast : graph.entry + 1 = graph.modules.length

theorem spans_of_reach {graph : ModuleGraph} (h : reach resolver tree entry = .ok graph) :
    graph.Spans resolver tree entry := by
  obtain ⟨search, -, explored, closed, rfl⟩ :=
    reach_keeps (fun _ => True) (fun _ => True.intro) (fun _ _ _ => True.intro) h
  have finished : search.components = search.finished := by simp [Search.components, closed]
  obtain ⟨last, found, place⟩ := Option.map_eq_some_iff.1 (finished ▸ explored.last)
  have nonempty : search.finished.length ≠ 0 := by
    intro empty
    simp [List.length_eq_zero_iff.1 empty] at found
  refine ⟨?_, ?_, ?_, ?_, ?_⟩
  · have keys : (search.finished.map search.reachedModule).map ReachedModule.key = search.keys := by
      rw [Search.keys, finished, List.map_map]
      rfl
    exact keys ▸ explored.distinct
  · intro node member
    obtain ⟨component, inside, rfl⟩ := List.mem_map.1 member
    obtain ⟨reached, read⟩ := explored.reached component (finished ▸ inside)
    exact ⟨reached, readComponent_source read⟩
  · intro location reached
    obtain ⟨component, inside, key, read⟩ := explored.covers closed reached
    exact ⟨search.reachedModule component, List.mem_map_of_mem inside, key, read⟩
  · rw [List.getElem?_map, ← List.getLast?_eq_getElem?, found]
    exact congrArg some place
  · simp only [List.length_map]
    omega

theorem ModuleGraph.Spans.leads {graph : ModuleGraph} (spans : graph.Spans resolver tree entry)
    {importer : ReachedModule} (member : importer ∈ graph.modules) {specifier : Text}
    (imported : specifier ∈ localImports resolver importer.component.source)
    {dependency : Location} (resolved : resolver.resolve tree specifier = some dependency) :
    ∃ node ∈ graph.modules, node.key = dependency.key := by
  obtain ⟨reached, read⟩ := spans.reached importer member
  have next : Imports resolver tree importer.component.location dependency :=
    ⟨importer.component, specifier, readComponent_iff.2 read, imported, resolved⟩
  obtain ⟨node, inside, key, -⟩ := spans.covers dependency (reached.tail next)
  exact ⟨node, inside, key⟩

/-- A walk fails exactly when a module that the entry reaches cannot be read, with the fault
    of such a module, and otherwise finds what the entry reaches. -/
theorem reach_finds_reachable (resolver : Resolver) (tree : FileTree) (entry : Location) :
    ((∃ problem, reach resolver tree entry = .error problem) ↔
        ∃ location, Reachable resolver tree entry location ∧
          ∃ fault, tree.readText location.path = .error fault) ∧
      (∀ problem, reach resolver tree entry = .error problem →
        ∃ location fault, Reachable resolver tree entry location ∧
          tree.readText location.path = .error fault ∧
          problem = .file location.path.shown fault) ∧
      ∀ graph, reach resolver tree entry = .ok graph → graph.Spans resolver tree entry := by
  have failing : ∀ problem, reach resolver tree entry = .error problem →
      ∃ location fault, Reachable resolver tree entry location ∧
        tree.readText location.path = .error fault ∧
        problem = .file location.path.shown fault := by
    intro problem h
    obtain ⟨location, reached, unread⟩ := reach_eq_error h
    obtain ⟨fault, read, same⟩ := readComponent_eq_error unread
    exact ⟨location, fault, reached, read, same⟩
  refine ⟨⟨?_, ?_⟩, failing, fun graph h => spans_of_reach h⟩
  · rintro ⟨problem, h⟩
    obtain ⟨location, fault, reached, read, -⟩ := failing problem h
    exact ⟨location, reached, fault, read⟩
  · rintro ⟨location, reached, fault, read⟩
    cases result : reach resolver tree entry with
    | error problem => exact ⟨problem, rfl⟩
    | ok graph =>
      obtain ⟨node, -, -, readable⟩ := (spans_of_reach result).covers location reached
      rw [read] at readable
      contradiction

end ComponentBundle.Project
