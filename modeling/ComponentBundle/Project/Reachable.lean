import ComponentBundle.Project.Search

/-!
The components that an entry needs, by following local imports in the order in which
they stand. A component comes after those it imports, so the entry comes last.
-/
namespace ComponentBundle.Project
open ComponentBundle.Text ComponentBundle.Files

structure ReachedModule where
  component : Component
  specifiers : List Text
  deriving Repr, DecidableEq

def ReachedModule.relative (node : ReachedModule) : Text := node.component.relative

def ReachedModule.key (node : ReachedModule) : ModuleKey := node.component.key

structure ModuleGraph where
  modules : List ReachedModule
  entry : Nat
  warnings : List Warning
  deriving Repr, DecidableEq

def ModuleGraph.relatives (graph : ModuleGraph) : List Text :=
  graph.modules.map ReachedModule.relative

def ModuleGraph.dependencies (graph : ModuleGraph) : List ReachedModule :=
  graph.modules.eraseIdx graph.entry

def insertNew (items : List Text) (item : Text) : List Text :=
  if items.contains item then items else items ++ [item]

variable {resolver : Resolver} {tree : FileTree}

def Search.aliasesOf (search : Search resolver tree) (key : ModuleKey) : List Text :=
  ((search.aliases.filter fun entry => entry.1 = key).map Prod.snd).foldl insertNew []

def Search.reachedModule (search : Search resolver tree) (component : Component) :
    ReachedModule :=
  ⟨component, (resolver.ownSpecifiers component.relative).foldl insertNew
    (search.aliasesOf component.key)⟩

/-- The graph of a walk that has ended. Its entry is sought among the modules, from the
    last one on. -/
def Search.graph (search : Search resolver tree) (entry : Location) : Except Problem ModuleGraph :=
  let modules := search.finished.map search.reachedModule
  match modules.reverse.findIdx? fun node => node.key = entry.key with
  | some behind => .ok ⟨modules, modules.length - 1 - behind, search.warnings⟩
  | none => .error (.moduleNotFound entry.relative resolver.root.shown)

theorem Search.graph_of_last {search : Search resolver tree} {entry : Location}
    (last : search.finished.getLast?.map Component.location = some entry) :
    search.graph entry = .ok ⟨search.finished.map search.reachedModule,
      search.finished.length - 1, search.warnings⟩ := by
  obtain ⟨component, found, rfl⟩ := Option.map_eq_some_iff.1 last
  obtain ⟨others, split⟩ := List.getLast?_eq_some_iff.1 found
  simp [graph, split, reachedModule, ReachedModule.key, Component.key, List.findIdx?_cons]

def Search.start (module : OpenModule resolver tree) : Search resolver tree :=
  ⟨[module], [], [], []⟩

def reach (resolver : Resolver) (tree : FileTree) (entry : Location) :
    Except Problem ModuleGraph := do
  let module ← OpenModule.at? resolver tree entry
  let search ← (Search.start module).run
  search.graph entry

def reachWithin (n : Nat) (resolver : Resolver) (tree : FileTree) (entry : Location) :
    Option ModuleGraph :=
  match OpenModule.at? resolver tree entry with
  | .error _ => none
  | .ok module =>
    match (Search.start module).steps n with
    | .error _ => none
    | .ok search => if search.opened.isEmpty then (search.graph entry).toOption else none

theorem reach_of_reachWithin {n : Nat} {entry : Location} {graph : ModuleGraph}
    (h : reachWithin n resolver tree entry = some graph) :
    reach resolver tree entry = .ok graph := by
  unfold reachWithin at h
  split at h
  · contradiction
  · rename_i module opened
    split at h
    · contradiction
    · rename_i search walked
      split at h
      · rename_i closed
        have ended := Search.run_of_steps walked (List.isEmpty_iff.1 closed)
        cases made : search.graph entry with
        | error problem => simp [made, Except.toOption] at h
        | ok found =>
          rw [made] at h
          simp only [reach, opened, ended, bind, Except.bind, made]
          exact congrArg Except.ok (Option.some.inj h)
      · contradiction

end ComponentBundle.Project
