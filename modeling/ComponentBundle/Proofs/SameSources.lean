import Mathlib.Data.List.Find
import ComponentBundle.Proofs.TreeReading
import ComponentBundle.Proofs.Walk

/-!
What a compilation depends on. It is the same over two trees that agree at the places it
looks at: the ways of the paths that specifiers may stand for, of all that the entry reaches.
-/
namespace ComponentBundle.Project
open ComponentBundle.Text ComponentBundle.Files

def Resolver.probes (resolver : Resolver) (specifier : Text) : List Location :=
  (resolver.pathBelowRoot? specifier).toList.flatMap fun path =>
    (resolver.candidates path).map resolver.locate

variable {resolver : Resolver} {tree now : FileTree} {entry : Location}

theorem Resolver.resolve_eq_probe (resolver : Resolver) (tree : FileTree) (specifier : Text) :
    resolver.resolve tree specifier
      = (resolver.probes specifier).find? fun location => tree.isFile location.path := by
  rw [resolve, probes]
  cases resolver.pathBelowRoot? specifier <;> simp

theorem Resolver.resolve_congr {specifier : Text}
    (same : ∀ location ∈ resolver.probes specifier, tree.SameAt now (tree.way location.path)) :
    resolver.resolve now specifier = resolver.resolve tree specifier := by
  rw [resolve_eq_probe, resolve_eq_probe]
  exact List.find?_congr fun location probed => FileTree.isFile_congr (same location probed)

theorem Resolver.mem_probes_of_resolve {specifier : Text} {location : Location}
    (h : resolver.resolve tree specifier = some location) :
    location ∈ resolver.probes specifier := by
  rw [resolve_eq_probe] at h
  exact List.mem_of_find?_eq_some h

theorem readComponent_congr {location : Location} (same : tree.SameAt now (tree.way location.path)) :
    readComponent now location = readComponent tree location := by
  rw [readComponent, readComponent, FileTree.readText_congr same]

structure Agrees (resolver : Resolver) (tree now : FileTree) (entry : Location) : Prop where
  read : ∀ location, Reachable resolver tree entry location →
    readComponent now location = readComponent tree location
  resolved : ∀ importer component specifier, Reachable resolver tree entry importer →
    readComponent tree importer = .ok component →
    specifier ∈ localImports resolver component.source →
    resolver.resolve now specifier = resolver.resolve tree specifier

structure View where
  opened : List (Component × List Text)
  finished : List Component
  aliases : List (ModuleKey × Text)
  warnings : List Warning

def OpenModule.view (module : OpenModule resolver tree) : Component × List Text :=
  (module.component, module.left)

def Search.view (search : Search resolver tree) : View :=
  ⟨search.opened.map OpenModule.view, search.finished, search.aliases, search.warnings⟩

theorem OpenModule.at?_view {location : Location} {module : OpenModule resolver tree}
    (read : readComponent now location = readComponent tree location)
    (h : OpenModule.at? resolver tree location = .ok module) :
    ∃ again : OpenModule resolver now, OpenModule.at? resolver now location = .ok again ∧
      again.view = module.view := by
  obtain ⟨found, -, -, left⟩ := OpenModule.at?_eq_ok h
  unfold OpenModule.at?
  split
  · rename_i component again
    obtain rfl := Except.ok.inj (again.symm.trans (read.trans found))
    exact ⟨_, rfl, by rw [view, view, left]⟩
  · rename_i problem failed
    simp [failed, found] at read

namespace Search

theorem step_of_ended {inner : OpenModule resolver tree} (ended : inner.left = []) :
    step ⟨inner :: outer, done, led, told⟩
      = .ok ⟨outer, done ++ [inner.component], led, told⟩ := by
  simp only [step]
  split
  · rfl
  · simp_all

theorem step_of_next {inner : OpenModule resolver tree} (next : inner.left = specifier :: left) :
    step ⟨inner :: outer, done, led, told⟩
      = follow ⟨inner.next next :: outer, done, led, told⟩ inner.component.relative specifier := by
  simp only [step]
  split
  · simp_all
  · rename_i again more found
    obtain ⟨rfl, rfl⟩ := List.cons.inj (found.symm.trans next)
    rfl

theorem keys_of_view {first : List (OpenModule resolver tree)}
    {second : List (OpenModule resolver now)}
    (same : second.map OpenModule.view = first.map OpenModule.view) :
    second.map OpenModule.key = first.map OpenModule.key := by
  have keys := congrArg (List.map fun seen => Component.key seen.1) same
  rwa [List.map_map, List.map_map] at keys

variable {search after : Search resolver tree} {other : Search resolver now}

theorem visit_view {importer : Text} {location : Location} (same : other.view = search.view)
    (read : readComponent now location = readComponent tree location)
    (h : search.visit importer location = .ok after) :
    ∃ next, other.visit importer location = .ok next ∧ next.view = after.view := by
  obtain ⟨opened, done, led, told⟩ := View.mk.inj same
  have keys := keys_of_view opened
  rcases visit_eq_ok h with ⟨inside, rfl⟩ | ⟨outside, old, rfl⟩ | ⟨outside, new, module, opens, rfl⟩
  · refine ⟨_, by rw [visit, keys, if_pos inside], ?_⟩
    simp [view, warn, opened, done, led, told]
  · exact ⟨_, by rw [visit, keys, if_neg outside, done, if_pos old], same⟩
  · obtain ⟨again, reopened, seen⟩ := OpenModule.at?_view read opens
    refine ⟨{ other with opened := again :: other.opened }, ?_, ?_⟩
    · rw [visit, keys, if_neg outside, done, if_neg new, reopened]
      rfl
    · simp [view, seen, opened, done, led, told]

theorem follow_view {importer specifier : Text} (same : other.view = search.view)
    (resolved : resolver.resolve now specifier = resolver.resolve tree specifier)
    (read : ∀ dependency, resolver.resolve tree specifier = some dependency →
      readComponent now dependency = readComponent tree dependency)
    (h : search.follow importer specifier = .ok after) :
    ∃ next, other.follow importer specifier = .ok next ∧ next.view = after.view := by
  obtain ⟨opened, done, led, told⟩ := View.mk.inj same
  unfold follow at h ⊢
  rw [resolved]
  cases found : resolver.resolve tree specifier with
  | none =>
    obtain rfl := Except.ok.inj (found ▸ h)
    exact ⟨_, rfl, by simp [view, warn, opened, done, led, told]⟩
  | some dependency =>
    rw [found] at h
    refine visit_view ?_ (read dependency found) h
    simp [view, named, opened, done, led, told]

/-- A step over one tree is a step over the other. -/
theorem step_view (agrees : Agrees resolver tree now entry) (explored : Explored entry search)
    (same : other.view = search.view) (inside : search.opened ≠ []) (h : search.step = .ok after) :
    ∃ next, other.step = .ok next ∧ next.view = after.view := by
  obtain ⟨opened, done, led, told⟩ := search
  obtain ⟨openedNow, doneNow, ledNow, toldNow⟩ := other
  obtain ⟨opens, rfl, rfl, rfl⟩ := View.mk.inj same
  obtain ⟨inner, outer, rfl⟩ := List.exists_cons_of_ne_nil inside
  obtain ⟨innerNow, outerNow, rfl, head, tail⟩ := List.map_eq_cons_iff.1 opens
  obtain ⟨component, left⟩ := Prod.mk.inj head
  cases next : inner.left with
  | nil =>
    rw [step_of_ended next] at h
    obtain rfl := Except.ok.inj h
    exact ⟨_, step_of_ended (left.trans next), by simp [view, tail, component]⟩
  | cons specifier more =>
    rw [step_of_next next] at h
    rw [step_of_next (left.trans next), component]
    have reached := (explored.reached inner.component (by simp [components])).1
    have imported := inner.imported next
    have resolved := agrees.resolved _ _ specifier reached inner.readable imported
    refine follow_view ?_ resolved (fun dependency found => ?_) h
    · simp [view, OpenModule.view, component, tail]
    · exact agrees.read dependency (reached.tail ⟨_, _, inner.readable, imported, found⟩)

theorem run_view (agrees : Agrees resolver tree now entry) (explored : Explored entry search)
    (same : other.view = search.view) (h : search.run = .ok after) :
    ∃ last, other.run = .ok last ∧ last.view = after.view := by
  fun_induction run search generalizing other with
  | case1 search outside =>
    obtain rfl := Except.ok.inj h
    have closed : other.opened = [] := by
      have opens := (View.mk.inj same).1
      simpa [outside] using opens
    exact ⟨other, by rw [run, dif_pos closed], same⟩
  | case2 search inside problem moved => contradiction
  | case3 search inside middle moved ih =>
    obtain ⟨next, moves, alike⟩ := step_view agrees explored same inside moved
    obtain ⟨last, ran, ended⟩ := ih (explored.moves (step_moves inside moved)) alike h
    have open_ : other.opened ≠ [] := by
      have opens := (View.mk.inj same).1
      intro closed
      simp [closed, inside] at opens
    refine ⟨last, ?_, ended⟩
    rw [run, dif_neg open_, moves]
    exact ran

theorem graph_of_view (same : other.view = search.view) (entry : Location) :
    other.graph entry = search.graph entry := by
  obtain ⟨opened, done, led, told⟩ := search
  obtain ⟨openedNow, doneNow, ledNow, toldNow⟩ := other
  obtain ⟨-, rfl, rfl, rfl⟩ := View.mk.inj same
  rfl

end Search

theorem reach_congr {graph : ModuleGraph} (agrees : Agrees resolver tree now entry)
    (h : reach resolver tree entry = .ok graph) : reach resolver now entry = .ok graph := by
  cases opened : OpenModule.at? resolver tree entry with
  | error problem => simp [reach, opened, bind, Except.bind] at h
  | ok module =>
    cases ended : (Search.start module).run with
    | error problem => simp [reach, opened, ended, bind, Except.bind] at h
    | ok search =>
      simp only [reach, opened, ended, bind, Except.bind] at h
      obtain ⟨again, reopened, seen⟩ := OpenModule.at?_view (agrees.read entry .refl) opened
      have same : (Search.start again).view = (Search.start module).view := by
        simp [Search.view, Search.start, seen]
      obtain ⟨last, ran, alike⟩ := Search.run_view agrees (.start opened) same ended
      simp only [reach, reopened, ran, bind, Except.bind, Search.graph_of_view alike, h]

end ComponentBundle.Project
