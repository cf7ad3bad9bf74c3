import ComponentBundle.Module.Scan
import ComponentBundle.Project.Resolver

/-!
A walk through the components that import each other. It goes one local import at a time,
into a module as soon as one leads there, and out of it after the last of its imports.
A module is entered once, so a walk ends after as many modules as the imports of all
files of the tree lead to.
-/
namespace ComponentBundle.Project
open ComponentBundle.Text ComponentBundle.Files ComponentBundle.Module

abbrev ModuleKey := List FilePath.Part

def Location.key (location : Location) : ModuleKey := location.path.parts

def Component.key (component : Component) : ModuleKey := component.location.key

def Component.relative (component : Component) : Text := component.location.relative

theorem readComponent_location {tree : FileTree} {location : Location} {component : Component}
    (h : readComponent tree location = .ok component) : component.location = location := by
  unfold readComponent at h
  split at h
  · exact Except.ok.inj h ▸ rfl
  · contradiction

theorem readComponent_source {tree : FileTree} {location : Location} {component : Component}
    (h : readComponent tree location = .ok component) :
    tree.readText location.path = .ok component.source := by
  unfold readComponent at h
  split at h
  · rename_i source read
    rw [← Except.ok.inj h]
    exact read
  · contradiction

def localImports (resolver : Resolver) (source : Text) : List Text :=
  ((imports resolver.space source).filter (·.isLocal)).map (·.specifier.specifier)

/-- A module that a walk is inside of, with the local imports it has followed and those
    that are left. -/
structure OpenModule (resolver : Resolver) (tree : FileTree) where
  component : Component
  followed : List Text
  left : List Text
  readable : readComponent tree component.location = .ok component
  split : followed ++ left = localImports resolver component.source

variable {resolver : Resolver} {tree : FileTree}

def OpenModule.key (module : OpenModule resolver tree) : ModuleKey := module.component.key

def OpenModule.at? (resolver : Resolver) (tree : FileTree) (location : Location) :
    Except Problem (OpenModule resolver tree) :=
  match found : readComponent tree location with
  | .ok component =>
    .ok ⟨component, [], localImports resolver component.source,
      (readComponent_location found).symm ▸ found, rfl⟩
  | .error problem => .error problem

theorem OpenModule.at?_eq_ok {location : Location} {module : OpenModule resolver tree}
    (h : OpenModule.at? resolver tree location = .ok module) :
    readComponent tree location = .ok module.component ∧ module.component.location = location ∧
      module.followed = [] ∧ module.left = localImports resolver module.component.source := by
  unfold OpenModule.at? at h
  split at h
  · rename_i component found
    rw [← Except.ok.inj h]
    exact ⟨found, readComponent_location found, rfl, rfl⟩
  · contradiction

theorem OpenModule.at?_eq_error {location : Location} {problem : Problem}
    (h : OpenModule.at? resolver tree location = .error problem) :
    readComponent tree location = .error problem := by
  unfold OpenModule.at? at h
  split at h
  · contradiction
  · rename_i fault found
    exact Except.error.inj h ▸ found

def OpenModule.next (module : OpenModule resolver tree) {specifier : Text} {left : List Text}
    (h : module.left = specifier :: left) : OpenModule resolver tree :=
  { module with followed := module.followed ++ [specifier], left
                split := by simpa [h] using module.split }

@[simp] theorem OpenModule.next_key (module : OpenModule resolver tree) {specifier : Text}
    {left : List Text} (h : module.left = specifier :: left) :
    (module.next h).key = module.key := rfl

@[simp] theorem OpenModule.next_component (module : OpenModule resolver tree) {specifier : Text}
    {left : List Text} (h : module.left = specifier :: left) :
    (module.next h).component = module.component := rfl

@[simp] theorem OpenModule.next_followed (module : OpenModule resolver tree) {specifier : Text}
    {left : List Text} (h : module.left = specifier :: left) :
    (module.next h).followed = module.followed ++ [specifier] := rfl

@[simp] theorem OpenModule.next_left (module : OpenModule resolver tree) {specifier : Text}
    {left : List Text} (h : module.left = specifier :: left) : (module.next h).left = left := rfl

theorem OpenModule.imported (module : OpenModule resolver tree) {specifier : Text}
    {left : List Text} (h : module.left = specifier :: left) :
    specifier ∈ localImports resolver module.component.source := by
  simp [← module.split, h]

/-- What a walk has found so far: the modules it is inside of, the innermost first, those
    it is done with, the specifiers that led to each, and the warnings. -/
structure Search (resolver : Resolver) (tree : FileTree) where
  opened : List (OpenModule resolver tree)
  finished : List Component
  aliases : List (ModuleKey × Text)
  warnings : List Warning

namespace Search

def warn (search : Search resolver tree) (warning : Warning) : Search resolver tree :=
  { search with warnings := search.warnings ++ [warning] }

def named (search : Search resolver tree) (key : ModuleKey) (specifier : Text) :
    Search resolver tree :=
  { search with aliases := search.aliases ++ [(key, specifier)] }

/-- The modules that the walk came to, in the order in which it would be done with them if
    it found no others. -/
def components (search : Search resolver tree) : List Component :=
  search.finished ++ search.opened.map OpenModule.component

def keys (search : Search resolver tree) : List ModuleKey := search.components.map Component.key

def visit (search : Search resolver tree) (importer : Text) (location : Location) :
    Except Problem (Search resolver tree) :=
  if location.key ∈ search.opened.map OpenModule.key then
    .ok (search.warn (.cyclicDependency importer location.relative))
  else if location.key ∈ search.finished.map Component.key then .ok search
  else (OpenModule.at? resolver tree location).map fun module =>
    { search with opened := module :: search.opened }

theorem visit_eq_ok {search after : Search resolver tree} {importer : Text} {location : Location}
    (h : search.visit importer location = .ok after) :
    (location.key ∈ search.opened.map OpenModule.key ∧
        after = search.warn (.cyclicDependency importer location.relative)) ∨
      (location.key ∉ search.opened.map OpenModule.key ∧
        location.key ∈ search.finished.map Component.key ∧ after = search) ∨
      (location.key ∉ search.opened.map OpenModule.key ∧
        location.key ∉ search.finished.map Component.key ∧
        ∃ module, OpenModule.at? resolver tree location = .ok module ∧
          after = { search with opened := module :: search.opened }) := by
  unfold visit at h
  split at h
  · rename_i inside
    exact Or.inl ⟨inside, (Except.ok.inj h).symm⟩
  · rename_i outside
    split at h
    · rename_i old
      exact Or.inr (Or.inl ⟨outside, old, (Except.ok.inj h).symm⟩)
    · rename_i new
      cases read : OpenModule.at? resolver tree location with
      | error problem => simp [read, Except.map] at h
      | ok module =>
        rw [read] at h
        exact Or.inr (Or.inr ⟨outside, new, module, rfl, (Except.ok.inj h).symm⟩)

theorem visit_eq_error {search : Search resolver tree} {importer : Text} {location : Location}
    {problem : Problem} (h : search.visit importer location = .error problem) :
    readComponent tree location = .error problem := by
  unfold visit at h
  split at h
  · contradiction
  · split at h
    · contradiction
    · cases read : OpenModule.at? resolver tree location with
      | ok module => simp [read, Except.map] at h
      | error fault =>
        rw [read] at h
        exact Except.error.inj h ▸ OpenModule.at?_eq_error read

def follow (search : Search resolver tree) (importer specifier : Text) :
    Except Problem (Search resolver tree) :=
  match resolver.resolve tree specifier with
  | some dependency => (search.named dependency.key specifier).visit importer dependency
  | none => .ok (search.warn (.moduleNotFound specifier importer))

/-- Follows the next import of the innermost module, or leaves it if there is none. -/
def step (search : Search resolver tree) : Except Problem (Search resolver tree) :=
  match search.opened with
  | [] => .ok search
  | inner :: outer =>
    match next : inner.left with
    | [] => .ok { search with opened := outer, finished := search.finished ++ [inner.component] }
    | specifier :: _ =>
      { search with opened := inner.next next :: outer }.follow inner.component.relative specifier

end Search

inductive Search.Moves : Search resolver tree → Search resolver tree → Prop where
  | leave {inner : OpenModule resolver tree} (ended : inner.left = []) :
      Moves ⟨inner :: outer, done, led, told⟩ ⟨outer, done ++ [inner.component], led, told⟩
  | missing {inner : OpenModule resolver tree} (next : inner.left = specifier :: left)
      (unresolved : resolver.resolve tree specifier = none) :
      Moves ⟨inner :: outer, done, led, told⟩
        ⟨inner.next next :: outer, done, led,
          told ++ [.moduleNotFound specifier inner.component.relative]⟩
  | cycle {inner : OpenModule resolver tree} (next : inner.left = specifier :: left)
      (resolved : resolver.resolve tree specifier = some dependency)
      (inside : dependency.key ∈ (inner :: outer).map OpenModule.key) :
      Moves ⟨inner :: outer, done, led, told⟩
        ⟨inner.next next :: outer, done, led ++ [(dependency.key, specifier)],
          told ++ [.cyclicDependency inner.component.relative dependency.relative]⟩
  | known {inner : OpenModule resolver tree} (next : inner.left = specifier :: left)
      (resolved : resolver.resolve tree specifier = some dependency)
      (outside : dependency.key ∉ (inner :: outer).map OpenModule.key)
      (old : dependency.key ∈ done.map Component.key) :
      Moves ⟨inner :: outer, done, led, told⟩
        ⟨inner.next next :: outer, done, led ++ [(dependency.key, specifier)], told⟩
  | enter {inner : OpenModule resolver tree} (next : inner.left = specifier :: left)
      (resolved : resolver.resolve tree specifier = some dependency)
      (outside : dependency.key ∉ (inner :: outer).map OpenModule.key)
      (new : dependency.key ∉ done.map Component.key)
      (read : OpenModule.at? resolver tree dependency = .ok module) :
      Moves ⟨inner :: outer, done, led, told⟩
        ⟨module :: inner.next next :: outer, done, led ++ [(dependency.key, specifier)], told⟩

theorem Search.step_moves {search after : Search resolver tree} (inside : search.opened ≠ [])
    (h : search.step = .ok after) : Moves search after := by
  obtain ⟨opened, done, led, told⟩ := search
  cases opened with
  | nil => contradiction
  | cons inner outer =>
    simp only [step] at h
    split at h
    · rename_i ended
      exact Except.ok.inj h ▸ .leave ended
    · rename_i specifier left next
      unfold follow at h
      split at h
      · rename_i dependency resolved
        rcases visit_eq_ok h with
          ⟨inside, rfl⟩ | ⟨outside, old, rfl⟩ | ⟨outside, new, module, read, rfl⟩
        · exact .cycle next resolved inside
        · exact .known next resolved outside old
        · exact .enter next resolved outside new read
      · rename_i unresolved
        exact Except.ok.inj h ▸ .missing next unresolved

/-- A step fails only where an import leads to a file that cannot be read. -/
theorem Search.step_fails {search : Search resolver tree} {problem : Problem}
    (h : search.step = .error problem) :
    ∃ inner ∈ search.opened, ∃ specifier ∈ inner.left, ∃ dependency,
      resolver.resolve tree specifier = some dependency ∧
        readComponent tree dependency = .error problem := by
  obtain ⟨opened, done, led, told⟩ := search
  cases opened with
  | nil => simp [step] at h
  | cons inner outer =>
    simp only [step] at h
    split at h
    · contradiction
    · rename_i specifier left next
      unfold follow at h
      split at h
      · rename_i dependency resolved
        exact ⟨inner, by simp, specifier, by simp [next], dependency, resolved, visit_eq_error h⟩
      · contradiction

/-- The keys of all modules that imports may lead to, whatever file they stand in. -/
def importedKeys (resolver : Resolver) (tree : FileTree) : List ModuleKey :=
  tree.entries.flatMap fun entry =>
    match entry.2 with
    | .file (.text source) =>
      (localImports resolver source).filterMap fun specifier =>
        (resolver.resolve tree specifier).map Location.key
    | _ => []

theorem mem_importedKeys {component : Component} {specifier : Text} {dependency : Location}
    (readable : readComponent tree component.location = .ok component)
    (imported : specifier ∈ localImports resolver component.source)
    (resolved : resolver.resolve tree specifier = some dependency) :
    dependency.key ∈ importedKeys resolver tree := by
  obtain ⟨key, entry⟩ := tree.readText_entry (readComponent_source readable)
  refine List.mem_flatMap.2 ⟨_, entry, List.mem_filterMap.2 ⟨specifier, imported, ?_⟩⟩
  rw [resolved]
  rfl

namespace Search

/-- How many of the modules that imports may lead to the walk has not come to. -/
def unseen (search : Search resolver tree) : Nat :=
  ((importedKeys resolver tree).filter fun key => key ∉ search.keys).length

def pending (search : Search resolver tree) : Nat :=
  search.opened.foldr (fun module more => module.left.length + 1 + more) 0

theorem unseen_lt {search after : Search resolver tree} {key : ModuleKey}
    (imported : key ∈ importedKeys resolver tree) (new : key ∉ search.keys)
    (grown : ∀ k, k ∈ after.keys ↔ k = key ∨ k ∈ search.keys) : after.unseen < search.unseen := by
  have same : (importedKeys resolver tree).filter (fun k => k ∉ after.keys)
      = ((importedKeys resolver tree).filter fun k => k ∉ search.keys).filter
          fun k => decide (k ≠ key) := by
    rw [List.filter_filter]
    exact List.filter_congr fun k _ => by simp [grown]
  rw [unseen, unseen, same]
  refine List.length_filter_lt_length_iff_exists.2 ⟨key, ?_, by simp⟩
  exact List.mem_filter.2 ⟨imported, by simpa using new⟩

/-- A step that comes to no module uses up an import or leaves a module. A module that the
    walk comes to takes its place before all that are open. -/
theorem Moves.components_eq_or_insert {search after : Search resolver tree}
    (move : Moves search after) :
    (after.components = search.components ∧ after.pending < search.pending) ∨
      ∃ inner ∈ search.opened, ∃ specifier ∈ localImports resolver inner.component.source,
        ∃ component, resolver.resolve tree specifier = some component.location ∧
          readComponent tree component.location = .ok component ∧ component.key ∉ search.keys ∧
          after.components
            = search.finished ++ component :: search.opened.map OpenModule.component := by
  cases move with
  | leave ended => exact Or.inl (by simp [components, pending, ended])
  | missing next unresolved => exact Or.inl (by simp [components, pending, next])
  | cycle next resolved inside => exact Or.inl (by simp [components, pending, next])
  | known next resolved outside old => exact Or.inl (by simp [components, pending, next])
  | enter next resolved outside new read =>
    rename_i specifier left dependency outer module done led told inner
    obtain ⟨found, place, -, -⟩ := OpenModule.at?_eq_ok read
    refine Or.inr ⟨inner, by simp, specifier, inner.imported next, module.component, ?_, ?_, ?_, ?_⟩
    · rw [place, resolved]
    · rw [place, found]
    · simpa [keys, components, OpenModule.key, Component.key, place] using And.intro new outside
    · simp [components]

theorem Moves.decreases {search after : Search resolver tree} (move : Moves search after) :
    Prod.Lex (· < ·) (· < ·) (after.unseen, after.pending) (search.unseen, search.pending) := by
  rcases move.components_eq_or_insert with
    ⟨same, fewer⟩ | ⟨inner, -, specifier, imported, component, resolved, -, new, grown⟩
  · have sameKeys : after.keys = search.keys := congrArg (List.map Component.key) same
    have unchanged : after.unseen = search.unseen := by rw [unseen, unseen, sameKeys]
    exact unchanged ▸ .right _ fewer
  · refine .left _ _ (unseen_lt (mem_importedKeys inner.readable imported resolved) new ?_)
    intro key
    rw [keys, grown, keys, components]
    simp only [List.map_append, List.map_cons, List.mem_append, List.mem_cons]
    exact or_left_comm

def run (search : Search resolver tree) : Except Problem (Search resolver tree) :=
  if _inside : search.opened = [] then .ok search
  else
    match _moved : search.step with
    | .error problem => .error problem
    | .ok after => after.run
termination_by (search.unseen, search.pending)
decreasing_by exact (step_moves _inside _moved).decreases

/-- What every step keeps, a walk keeps to its end. -/
theorem run_keeps (holds : Search resolver tree → Prop)
    (kept : ∀ {search after}, holds search → Moves search after → holds after)
    {search final : Search resolver tree} (start : holds search) (h : search.run = .ok final) :
    holds final ∧ final.opened = [] := by
  fun_induction run search with
  | case1 search outside => exact Except.ok.inj h ▸ ⟨start, outside⟩
  | case2 => contradiction
  | case3 search inside after moved ih => exact ih (kept start (step_moves inside moved)) h

theorem run_fails (holds : Search resolver tree → Prop)
    (kept : ∀ {search after}, holds search → Moves search after → holds after)
    {search : Search resolver tree} {problem : Problem} (start : holds search)
    (h : search.run = .error problem) :
    ∃ last, holds last ∧ last.step = .error problem := by
  fun_induction run search with
  | case1 => contradiction
  | case2 search inside fault moved => exact ⟨search, start, Except.error.inj h ▸ moved⟩
  | case3 search inside after moved ih => exact ih (kept start (step_moves inside moved)) h

def steps : Nat → Search resolver tree → Except Problem (Search resolver tree)
  | 0, search => .ok search
  | n + 1, search => search.step.bind (steps n)

theorem run_of_steps {n : Nat} {search final : Search resolver tree}
    (h : steps n search = .ok final) (closed : final.opened = []) : search.run = .ok final := by
  induction n generalizing search with
  | zero =>
    obtain rfl := Except.ok.inj h
    rw [run, dif_pos closed]
  | succ n ih =>
    by_cases outside : search.opened = []
    · have stays : search.step = .ok search := by simp [step, outside]
      rw [steps, stays] at h
      exact ih h
    · rw [run, dif_neg outside]
      cases moved : search.step with
      | error problem => simp [steps, moved, Except.bind] at h
      | ok after =>
        rw [steps, moved] at h
        exact ih h

end Search

end ComponentBundle.Project
