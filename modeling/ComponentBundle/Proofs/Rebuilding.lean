import ComponentBundle.Proofs.CompiledAssets
import ComponentBundle.Proofs.FailedEvents
import ComponentBundle.Proofs.RepeatedWriting
import ComponentBundle.Proofs.SameSources

/-!
A second rebuild with nothing in between. It reads the files that the first one wrote among
all others, so it comes to the same if none of them is a file that a compilation looks at.
-/
namespace ComponentBundle.Bundle
open ComponentBundle.Text ComponentBundle.Files ComponentBundle.Project

def Session.package (session : Session) (tree : FileTree) : Package :=
  Package.read tree session.settings.packagePath

def Session.plan? (session : Session) (tree : FileTree) : Except Problem Plan :=
  plan tree session.settings (session.package tree) session.baseUrl

/-- The keys that a session looks at to compile: those on the way of the package file and of
    the places where its specifiers may stand, and, where all component files are listed, those
    that such a file can have. -/
inductive Session.LooksAt (session : Session) (tree : FileTree) : Key → Prop where
  | package {key : Key} (inside : key ∈ tree.way session.settings.packagePath) :
      LooksAt session tree key
  | entry {made : Plan} {specifier : Text} {place : Location} {key : Key}
      (planned : session.plan? tree = .ok made)
      (named : entrySpecifier? session.settings (session.package tree) = some specifier)
      (probed : place ∈ made.resolver.probes specifier) (inside : key ∈ tree.way place.path) :
      LooksAt session tree key
  | imported {made : Plan} {importer : Location} {component : Component} {specifier : Text}
      {place : Location} {key : Key} (linked : session.settings.mode ≠ .mirror)
      (planned : session.plan? tree = .ok made)
      (reached : Reachable made.resolver tree made.entry importer)
      (read : readComponent tree importer = .ok component)
      (imported : specifier ∈ localImports made.resolver component.source)
      (probed : place ∈ made.resolver.probes specifier) (inside : key ∈ tree.way place.path) :
      LooksAt session tree key
  | root {made : Plan} {key : Key} (mirror : session.settings.mode = .mirror)
      (planned : session.plan? tree = .ok made) (inside : key ∈ tree.way made.resolver.root) :
      LooksAt session tree key
  | listed {made : Plan} {root names : Key} (mirror : session.settings.mode = .mirror)
      (planned : session.plan? tree = .ok made)
      (located : tree.locate made.resolver.root = .ok root)
      (extended : (made.resolver.root.below names).extension?
        = some (Text.bytes (withoutDots made.resolver.extension))) :
      LooksAt session tree (root ++ names)
  | component {made : Plan} {file : Location} {key : Key}
      (mirror : session.settings.mode = .mirror) (planned : session.plan? tree = .ok made)
      (found : file ∈ componentFiles tree made.resolver.root made.resolver.extension)
      (inside : key ∈ tree.way file.path) : LooksAt session tree key

variable {session later : Session} {tree now after : FileTree} {compilation : Compilation}
  {made : Plan}

structure Session.SeesSame (session : Session) (tree now : FileTree) : Prop where
  home : now.home = tree.home
  nodes : ∀ key, session.LooksAt tree key → now.node? key = tree.node? key

theorem sees_package (sees : session.SeesSame tree now) :
    session.package now = session.package tree := by
  have same : tree.SameAt now (tree.way session.settings.packagePath) :=
    ⟨sees.home, fun key inside => sees.nodes key (.package inside)⟩
  rw [Session.package, Session.package, Package.read, Package.read, FileTree.readText_congr same]

theorem sees_plan (sees : session.SeesSame tree now) (planned : session.plan? tree = .ok made) :
    session.plan? now = .ok made := by
  have again := planned
  rw [Session.plan?, plan_eq_ok_iff] at again ⊢
  obtain ⟨specifier, entry, named, resolved, follows⟩ := again
  have same : ∀ place ∈ made.resolver.probes specifier, tree.SameAt now (tree.way place.path) :=
    fun place probed => ⟨sees.home, fun key inside =>
      sees.nodes key (.entry planned named probed inside)⟩
  rw [sees_package sees]
  exact ⟨specifier, entry, named, (Resolver.resolve_congr same).trans resolved, follows⟩

theorem sees_reached (sees : session.SeesSame tree now)
    (linked : session.settings.mode ≠ .mirror) (planned : session.plan? tree = .ok made) :
    Agrees made.resolver tree now made.entry := by
  have probes (importer : Location) (component : Component) (specifier : Text)
      (reached : Reachable made.resolver tree made.entry importer)
      (read : readComponent tree importer = .ok component)
      (imported : specifier ∈ localImports made.resolver component.source) :
      ∀ place ∈ made.resolver.probes specifier, tree.SameAt now (tree.way place.path) :=
    fun place probed => ⟨sees.home, fun key inside =>
      sees.nodes key (.imported linked planned reached read imported probed inside)⟩
  refine ⟨fun location reached => readComponent_congr ?_, ?_⟩
  · cases reached with
    | refl =>
      obtain ⟨specifier, entry, named, resolved, rfl⟩ := plan_eq_ok_iff.1 planned
      exact ⟨sees.home, fun key inside => sees.nodes key
        (.entry planned named (Resolver.mem_probes_of_resolve resolved) inside)⟩
    | tail path import_ =>
      obtain ⟨component, specifier, read, imported, resolved⟩ := import_
      exact probes _ component specifier path read imported _
        (Resolver.mem_probes_of_resolve resolved)
  · intro importer component specifier reached read imported
    exact Resolver.resolve_congr (probes importer component specifier reached read imported)

theorem mapM_congr {α β ε : Type} {f g : α → Except ε β} {l : List α}
    (same : ∀ a ∈ l, f a = g a) : l.mapM f = l.mapM g := by
  induction l with
  | nil => rfl
  | cons a l ih =>
    obtain ⟨first, rest⟩ := List.forall_mem_cons.1 same
    rw [List.mapM_cons, List.mapM_cons, first, ih rest]

theorem sees_listed (sees : session.SeesSame tree now)
    (mirror : session.settings.mode = .mirror) (planned : session.plan? tree = .ok made) :
    compileListed now made = compileListed tree made := by
  have files : componentFiles now made.resolver.root made.resolver.extension
      = componentFiles tree made.resolver.root made.resolver.extension :=
    componentFiles_congr ⟨sees.home, fun key inside => sees.nodes key (.root mirror planned inside)⟩
      fun key located names extended => sees.nodes _ (.listed mirror planned located extended)
  have read : (componentFiles tree made.resolver.root made.resolver.extension).mapM
        (readComponent now)
      = (componentFiles tree made.resolver.root made.resolver.extension).mapM
        (readComponent tree) :=
    mapM_congr fun file found => readComponent_congr
      ⟨sees.home, fun key inside => sees.nodes key (.component mirror planned found inside)⟩
  rw [compileListed, compileListed, files, read]

theorem sees_compiled (sees : session.SeesSame tree now)
    (h : session.compiled? .started tree = .ok compilation) :
    session.compiled? .started now = .ok compilation := by
  obtain ⟨made, planned, h⟩ := bind_eq_ok.1 h
  refine bind_eq_ok.2 ⟨made, sees_plan sees planned, ?_⟩
  cases mode : session.settings.mode with
  | single =>
    simp only [mode] at h ⊢
    obtain ⟨graph, reached, h⟩ := bind_eq_ok.1 h
    exact bind_eq_ok.2 ⟨graph, reach_congr (sees_reached sees (by simp [mode]) planned) reached, h⟩
  | multi =>
    simp only [mode] at h ⊢
    obtain ⟨graph, reached, h⟩ := bind_eq_ok.1 h
    exact bind_eq_ok.2 ⟨graph, reach_congr (sees_reached sees (by simp [mode]) planned) reached, h⟩
  | mirror =>
    simp only [mode] at h ⊢
    rw [sees_listed sees mode planned]
    exact h

theorem handle_eq_compiled {σ : Type} {host : Host σ} {event : Event} {state last : σ}
    (h : handle host event session state = (.compiled compilation, later, last)) :
    session.compiled? event (host.tree state) = .ok compilation ∧
      later = ⟨session.settings, event.url session, some compilation⟩ ∧
      publish host.sink compilation state = (.ok (), last) := by
  have met := handled host event session state
  rw [h] at met
  cases met with
  | published near made put => exact ⟨made, rfl, put⟩

/-- If a rebuild changed nothing that the session looks at, the next one compiles the same, and
    it leaves all files as they are exactly if no directory stands beside an asset where it is
    written before it is moved. -/
theorem rebuild_again_iff
    (h : handle (directoryHost session.settings.outputPath) .started session tree
      = (.compiled compilation, later, after))
    (unread : ∀ key, after.node? key ≠ tree.node? key → ¬ session.LooksAt tree key) :
    (∃ last, handle (directoryHost session.settings.outputPath) .started later after
          = (.compiled compilation, later, last) ∧
        ∀ key, last.node? key = after.node? key) ↔
      ∀ asset ∈ compilation.files,
        after.node? (after.destinationOf (temporary (asset.target session.settings.outputPath)))
          ≠ some .directory := by
  obtain ⟨compiled, rfl, written⟩ := handle_eq_compiled h
  have again := writeAll_again_iff written
  have sees : session.SeesSame tree after :=
    ⟨(writeAll_eq_ok written).1.home, fun key looked => by
      by_contra changed
      exact unread key changed looked⟩
  have recompiled := sees_compiled sees compiled
  constructor
  · rintro ⟨last, repeated, same⟩
    obtain ⟨-, -, rewritten⟩ := handle_eq_compiled repeated
    exact again.1 ⟨last, rewritten, same⟩
  · intro free
    obtain ⟨last, rewritten, same⟩ := again.2 free
    exact ⟨last, handle_published rfl recompiled rewritten, same⟩

theorem mem_keys_of_changed {key : Key} (changed : now.node? key ≠ tree.node? key) :
    key ∈ (now.entries ++ tree.entries).map Prod.fst := by
  by_contra absent
  rw [List.map_append, List.mem_append, not_or] at absent
  have none_of_absent (tree : FileTree) (absent : key ∉ tree.entries.map Prod.fst)
      (present : key ≠ []) : tree.node? key = none := by
    rw [FileTree.node?_of_ne_nil _ present, List.lookup_eq_none_iff]
    intro entry inside
    have apart : key ≠ entry.1 := fun same => absent (same ▸ List.mem_map_of_mem inside)
    simpa using apart
  refine changed ?_
  by_cases empty : key = []
  · simp [empty]
  · rw [none_of_absent now absent.1 empty, none_of_absent tree absent.2 empty]

/-! One component, and an output directory that is none of its sources. -/

def apartSettings : Settings := { entryPoint := some "main", mode := .mirror }

def apartTree : FileTree :=
  (FileTree.atHome []).put ["app"] .directory
    |>.put ["app", "components"] .directory
    |>.put ["app", "components", "main.gjs"] (.file (.text "export default 1;"))

def apartPlan : Plan := planFor apartSettings {} apartSettings.initialUrl
  ⟨⟨"./app/components/main.gjs"⟩, "main.gjs"⟩

def apartCompilation : Compilation where
  manifest :=
    { dependencies := some []
      main := ⟨"./Main", "http://localhost:4205/assets/extension-files/main.gjs", "0.0.0",
        extensionKind⟩ }
  assets := [⟨"main.gjs", "export default 1;"⟩]
  warnings := []
  modules := ["main.gjs"]

def apartSession : Session := .of apartSettings

def apartHost : Host FileTree := directoryHost apartSession.settings.outputPath

def apartStart : Outcome × Session × FileTree := handle apartHost .started apartSession apartTree

theorem apart_looks {key : Key} (looked : apartSession.LooksAt apartTree key) :
    key.head? ≠ some (Text.bytes "public") := by
  have plans : apartSession.plan? apartTree = .ok apartPlan := by decide +kernel
  cases looked with
  | package inside =>
    have away : ∀ key ∈ apartTree.way apartSession.settings.packagePath,
        key.head? ≠ some (Text.bytes "public") := by decide +kernel
    exact away key inside
  | entry planned named probed inside =>
    obtain rfl := Except.ok.inj (plans.symm.trans planned)
    obtain rfl := Option.some.inj ((show entrySpecifier? apartSession.settings
      (apartSession.package apartTree) = some "main".toList by decide +kernel).symm.trans named)
    have away : ∀ place ∈ apartPlan.resolver.probes "main", ∀ key ∈ apartTree.way place.path,
        key.head? ≠ some (Text.bytes "public") := by decide +kernel
    exact away _ probed key inside
  | imported linked planned reached read imported probed inside => exact absurd rfl linked
  | root mirror planned inside =>
    obtain rfl := Except.ok.inj (plans.symm.trans planned)
    have away : ∀ key ∈ apartTree.way apartPlan.resolver.root,
        key.head? ≠ some (Text.bytes "public") := by decide +kernel
    exact away key inside
  | listed mirror planned located extended =>
    obtain rfl := Except.ok.inj (plans.symm.trans planned)
    have root : apartTree.locate apartPlan.resolver.root = .ok (["app", "components"] : Key) := by
      decide +kernel
    obtain rfl := Except.ok.inj (root.symm.trans located)
    rw [List.cons_append, List.head?_cons]
    decide
  | component mirror planned found inside =>
    obtain rfl := Except.ok.inj (plans.symm.trans planned)
    have away : ∀ file ∈ componentFiles apartTree apartPlan.resolver.root
        apartPlan.resolver.extension, ∀ key ∈ apartTree.way file.path,
        key.head? ≠ some (Text.bytes "public") := by decide +kernel
    exact away _ found key inside

theorem apart_rebuilt_again :
    handle apartHost .started apartSession apartTree
        = (.compiled apartCompilation, apartStart.2.1, apartStart.2.2) ∧
      (∀ key, apartStart.2.2.node? key ≠ apartTree.node? key →
        ¬ apartSession.LooksAt apartTree key) ∧
      ((∃ last, handle apartHost .started apartStart.2.1 apartStart.2.2
            = (.compiled apartCompilation, apartStart.2.1, last) ∧
          ∀ key, last.node? key = apartStart.2.2.node? key) ↔
        ∀ asset ∈ apartCompilation.files, apartStart.2.2.node? (apartStart.2.2.destinationOf
          (temporary (asset.target apartSession.settings.outputPath))) ≠ some .directory) := by
  have compiled : handle apartHost .started apartSession apartTree
      = (.compiled apartCompilation, apartStart.2.1, apartStart.2.2) := by
    refine Prod.ext ?_ rfl
    decide +kernel
  have unread : ∀ key, apartStart.2.2.node? key ≠ apartTree.node? key →
      ¬ apartSession.LooksAt apartTree key := by
    intro key changed looked
    obtain ⟨entry, inside, rfl⟩ := List.mem_map.1 (mem_keys_of_changed changed)
    have below : ∀ entry ∈ apartStart.2.2.entries ++ apartTree.entries,
        apartStart.2.2.node? entry.1 ≠ apartTree.node? entry.1 →
          entry.1.head? = some (Text.bytes "public") := by decide +kernel
    exact apart_looks looked (below entry inside changed)
  exact ⟨compiled, unread, rebuild_again_iff compiled unread⟩

/-! The output directory lies among the sources. -/

def nestedSettings : Settings :=
  { entryPoint := some "main", mode := .mirror, outputDirectory := ⟨"app/components/out"⟩ }

def nestedSession : Session := .of nestedSettings

def nestedHost : Host FileTree := directoryHost nestedSession.settings.outputPath

def nestedStart : Outcome × Session × FileTree :=
  handle nestedHost .started nestedSession apartTree

def nestedCopy : Location := ⟨⟨"./app/components/out/main.gjs"⟩, "out/main.gjs"⟩

theorem nested_copy_found : nestedCopy ∈
    componentFiles nestedStart.2.2 nestedSettings.modulesPath nestedSettings.extension := by
  refine mem_componentFiles.2 ⟨["app", "components"], ["out", "main.gjs"],
    .text "export default 1;", ?_, ?_, ?_, ?_⟩
  all_goals decide +kernel

theorem nested_output_listed :
    nestedStart.1 = .compiled apartCompilation ∧
      (handle nestedHost .started nestedStart.2.1 nestedStart.2.2).1
        ≠ .compiled apartCompilation := by
  refine ⟨by decide +kernel, fun same => ?_⟩
  have session : nestedStart.2.1 = { nestedSession with last := some apartCompilation } := by
    decide +kernel
  obtain ⟨compiled, -, -⟩ := handle_eq_compiled (Prod.ext same rfl)
  obtain ⟨made, planned, compiled⟩ := bind_eq_ok.1 compiled
  rw [session] at planned compiled
  obtain ⟨specifier, entry, -, -, rfl⟩ := plan_eq_ok_iff.1 planned
  have follows : (planFor nestedSettings _ _ entry).Follows nestedSettings _ := plan_follows planned
  obtain ⟨-, -, -, modules, -⟩ := compileListed_eq_ok follows rfl compiled
  have listed : nestedCopy.relative ∈ apartCompilation.modules :=
    modules ▸ List.mem_map_of_mem nested_copy_found
  exact absurd listed (by decide)

end ComponentBundle.Bundle
