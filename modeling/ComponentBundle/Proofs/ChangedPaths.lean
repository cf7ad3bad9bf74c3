import ComponentBundle.Proofs.ParentPaths
import ComponentBundle.Proofs.Watching

/-!
Which changed paths a session compiles for. A path is judged by its spelling, or else by the
directory that it is in. That tells right whether the path lies at or under the module root,
unless steps up lead it out again, or neither its spelling nor its directory tells anything.
-/
namespace ComponentBundle.Files
open ComponentBundle.Text

variable {tree : FileTree} {root path parent : FilePath} {here above : Key}
  {part : FilePath.Part} {parts : List FilePath.Part}

/-- At a path or under it, wherever the two lead: from the home of the tree, with all steps up
    taken. -/
def FileTree.Under (tree : FileTree) (root path : FilePath) : Prop :=
  tree.destinationOf root <+: tree.destinationOf path

instance (tree : FileTree) (root path : FilePath) : Decidable (tree.Under root path) :=
  inferInstanceAs (Decidable (_ <+: _))

theorem prefix_foldl_placeOf (level : .up ∉ parts) : here <+: parts.foldl placeOf here := by
  induction parts generalizing here with
  | nil => exact List.prefix_rfl
  | cons part more ih =>
    rw [List.mem_cons, not_or] at level
    rw [List.foldl_cons]
    refine List.IsPrefix.trans ?_ (ih level.2)
    cases part with
    | up => exact absurd rfl level.1
    | name name => exact List.prefix_append here [name]
    | root => exact List.prefix_rfl
    | here => exact List.prefix_rfl

theorem prefix_placeOf_iff (below : above <+: here) :
    above <+: placeOf here part ↔ ¬ (part = .up ∧ here = above ∧ above ≠ []) := by
  cases part with
  | name name => simpa [placeOf] using below.trans (List.prefix_append here [name])
  | root => simpa [placeOf] using below
  | here => simpa [placeOf] using below
  | up =>
    obtain ⟨more, rfl⟩ := below
    simp only [placeOf, true_and, List.append_right_eq_self]
    rcases List.eq_nil_or_concat' more with rfl | ⟨front, last, rfl⟩
    · rw [List.append_nil]
      constructor
      · rintro start ⟨-, filled⟩
        have shorter := start.length_le
        have some_ := List.length_pos_of_ne_nil filled
        rw [List.length_dropLast] at shorter
        omega
      · intro free
        obtain rfl : above = [] := by simpa using free
        exact List.prefix_rfl
    · rw [← List.append_assoc, List.dropLast_concat]
      simp

theorem prefix_placeOf_outside (outside : ¬ above <+: here) :
    above <+: placeOf here part ↔ placeOf here part = above ∧ ∃ name, part = .name name := by
  cases part with
  | name name =>
    simp only [placeOf, FilePath.Part.name.injEq, exists_eq', and_true]
    rw [List.prefix_concat_iff]
    exact ⟨fun start => (start.resolve_right outside).symm, fun same => .inl same.symm⟩
  | root => simp [placeOf, outside]
  | here => simp [placeOf, outside]
  | up => simpa [placeOf] using fun start => outside (start.trans (List.dropLast_prefix here))

namespace FileTree

theorem under_of_same (same : tree.destinationOf path = tree.destinationOf root) :
    tree.Under root path :=
  ⟨[], by rw [List.append_nil, same]⟩

theorem destinationOf_of_parent? (tree : FileTree) (h : path.parent? = some parent) :
    ∃ last, path.parts = parent.parts ++ [last] ∧
      tree.destinationOf path = placeOf (tree.destinationOf parent) last := by
  obtain ⟨last, other, split⟩ := FilePath.parts_of_parent? h
  have rootless : .root ∉ [last] := by simpa using other.symm
  exact ⟨last, split, by rw [destinationOf, split, destination_append rootless]; rfl⟩

theorem under_of_parts (split : path.parts = root.parts ++ parts) (level : .up ∉ parts)
    (based : root.parts = [] → path.isAbsolute = false) : tree.Under root path := by
  have rootless : .root ∉ parts := by
    intro inside
    obtain ⟨absolute, behind, start, once⟩ :=
      FilePath.parts_of_root_mem (split ▸ List.mem_append_right _ inside)
    rw [split] at start
    cases lead : root.parts with
    | nil => simp [based lead] at absolute
    | cons first more =>
      rw [lead, List.cons_append] at start
      exact once ((List.cons.inj start).2 ▸ List.mem_append_right _ inside)
  rw [Under, destinationOf, destinationOf, split, destination_append rootless]
  exact prefix_foldl_placeOf level

end FileTree

end ComponentBundle.Files

namespace ComponentBundle.Bundle
open ComponentBundle.Text ComponentBundle.Files ComponentBundle.Project

variable {σ : Type} {tree : FileTree} {root path parent : FilePath} {settings : Settings}

/-- The directory of a path is found, and so is the root. -/
structure Traced (tree : FileTree) (root path parent : FilePath) : Prop where
  within : path.parent? = some parent
  directory : ∃ key, tree.locate parent = .ok key
  root : ∃ key, tree.locate root = .ok key

/-- The paths that a session judges wrong: some that are told by their spelling, some by the
    directory that they are in, and some by neither. -/
inductive Misjudged (tree : FileTree) (root path : FilePath) : Prop where
  /-- It starts as the root does, and steps up behind it lead out. -/
  | ledOut {behind : List FilePath.Part} (spelled : path.parts = root.parts ++ behind)
      (up : .up ∈ behind) (outside : ¬ tree.Under root path)
  /-- Every path starts as the empty one does, also one that is not under the home. -/
  | unrooted (unspelled : root.parts = []) (absolute : path.isAbsolute = true)
      (outside : ¬ tree.Under root path)
  /-- It is a step up from the root in another spelling, so the root is its directory. -/
  | above (other : ¬ root.parts <+: path.parts) {parent : FilePath}
      (traced : Traced tree root path parent) (up : path.parts = parent.parts ++ [.up])
      (same : tree.destinationOf parent = tree.destinationOf root)
      (filled : tree.destinationOf root ≠ [])
  /-- It is the root in another spelling, and its directory is not under the root. -/
  | itself (other : ¬ root.parts <+: path.parts) {parent : FilePath}
      (traced : Traced tree root path parent) {name : Name}
      (named : path.parts = parent.parts ++ [.name name])
      (same : tree.destinationOf path = tree.destinationOf root)
  /-- It is spelled otherwise than the root, and there is no directory to tell it by. -/
  | lost (other : ¬ root.parts <+: path.parts) (untraced : ∀ parent, ¬ Traced tree root path parent)
      (inside : tree.Under root path)

theorem concerns_iff :
    concerns tree settings path = true ↔ settings.modulesPath.parts <+: path.parts ∨
      ∃ parent, Traced tree settings.modulesPath path parent ∧
        tree.Under settings.modulesPath parent := by
  rw [concerns, Bool.or_eq_true, FilePath.startsWith, List.isPrefixOf_iff_prefix]
  refine or_congr_right ⟨fun found => ?_, ?_⟩
  · split at found
    · rename_i rootKey key rooted led
      obtain ⟨parent, above, located⟩ := Option.map_eq_some_iff.1 led
      refine ⟨parent, ⟨above, ⟨key, located⟩, rootKey, rooted⟩, ?_⟩
      rw [FileTree.Under, FileTree.destinationOf, FileTree.destinationOf,
        ← FileTree.locate_eq_ok rooted, ← FileTree.locate_eq_ok located]
      exact List.isPrefixOf_iff_prefix.1 found
    · contradiction
  · rintro ⟨parent, ⟨above, ⟨key, located⟩, rootKey, rooted⟩, under⟩
    rw [FileTree.Under, FileTree.destinationOf, FileTree.destinationOf,
      ← FileTree.locate_eq_ok rooted, ← FileTree.locate_eq_ok located] at under
    rw [above, Option.map_some, located, rooted]
    exact List.isPrefixOf_iff_prefix.2 under

theorem Traced.unique {other : FilePath} (traced : Traced tree root path parent)
    (again : Traced tree root path other) : other = parent :=
  Option.some.inj (again.within.symm.trans traced.within)

theorem misjudged_of_spelled (spelled : root.parts <+: path.parts) :
    Misjudged tree root path ↔ ¬ tree.Under root path := by
  constructor
  · rintro (⟨-, -, outside⟩ | ⟨-, -, outside⟩ | ⟨other⟩ | ⟨other⟩ | ⟨other⟩)
    · exact outside
    · exact outside
    all_goals exact absurd spelled other
  · intro outside
    obtain ⟨behind, split⟩ := spelled
    by_cases up : .up ∈ behind
    · exact .ledOut split.symm up outside
    · by_cases unrooted : root.parts = [] ∧ path.isAbsolute = true
      · exact .unrooted unrooted.1 unrooted.2 outside
      · refine absurd (FileTree.under_of_parts split.symm up fun empty => ?_) outside
        simpa [empty] using unrooted

theorem misjudged_of_traced (other : ¬ root.parts <+: path.parts)
    (traced : Traced tree root path parent) :
    Misjudged tree root path ↔ ¬ (tree.Under root parent ↔ tree.Under root path) := by
  obtain ⟨last, split, place⟩ := FileTree.destinationOf_of_parent? tree traced.within
  have spelled {behind : List FilePath.Part} (cut : path.parts = root.parts ++ behind) :
      root.parts <+: path.parts := ⟨behind, cut.symm⟩
  constructor
  · rintro (⟨cut⟩ | ⟨empty⟩ | ⟨-, again, up, same, filled⟩ | ⟨-, again, named, same⟩ |
      ⟨-, untraced⟩)
    · exact absurd (spelled cut) other
    · exact absurd (empty ▸ List.nil_prefix) other
    · obtain rfl := traced.unique again
      obtain rfl : last = .up := by simpa using split.symm.trans up
      have inside := FileTree.under_of_same same
      rw [FileTree.Under, FileTree.Under, place, prefix_placeOf_iff inside]
      simp [same, filled]
    · obtain rfl := traced.unique again
      obtain ⟨name, rfl⟩ : ∃ name, last = .name name := ⟨_, by simpa using split.symm.trans named⟩
      rw [iff_true_right (FileTree.under_of_same same), FileTree.Under, ← same, place]
      exact fun start => absurd start.length_le (by simp [placeOf])
    · exact absurd traced (untraced _)
  · intro differ
    by_cases inside : tree.Under root parent
    · rw [iff_true_left inside, FileTree.Under, place, prefix_placeOf_iff inside, not_not] at differ
      obtain ⟨rfl, same, filled⟩ := differ
      exact .above other traced split same filled
    · rw [iff_false_left inside, not_not, FileTree.Under, place,
        prefix_placeOf_outside inside] at differ
      obtain ⟨same, name, rfl⟩ := differ
      exact .itself other traced split (place.trans same)

theorem misjudged_of_untraced (other : ¬ root.parts <+: path.parts)
    (untraced : ∀ parent, ¬ Traced tree root path parent) :
    Misjudged tree root path ↔ tree.Under root path := by
  constructor
  · rintro (⟨split⟩ | ⟨empty⟩ | ⟨-, traced⟩ | ⟨-, traced⟩ | ⟨-, -, inside⟩)
    · exact absurd ⟨_, split.symm⟩ other
    · exact absurd (empty ▸ List.nil_prefix) other
    · exact absurd traced (untraced _)
    · exact absurd traced (untraced _)
    · exact inside
  · exact .lost other untraced

theorem concerns_exact_iff (tree : FileTree) (settings : Settings) (path : FilePath) :
    (concerns tree settings path = true ↔ tree.Under settings.modulesPath path) ↔
      ¬ Misjudged tree settings.modulesPath path := by
  rw [concerns_iff]
  generalize settings.modulesPath = root
  by_cases spelled : root.parts <+: path.parts
  · simp [misjudged_of_spelled spelled, spelled]
  · by_cases traced : ∃ parent, Traced tree root path parent
    · obtain ⟨parent, traced⟩ := traced
      have only : (∃ other, Traced tree root path other ∧ tree.Under root other) ↔
          tree.Under root parent :=
        ⟨fun ⟨other, again, under⟩ => traced.unique again ▸ under,
          fun under => ⟨parent, traced, under⟩⟩
      rw [misjudged_of_traced spelled traced, not_not, only, or_iff_right spelled]
    · rw [not_exists] at traced
      rw [misjudged_of_untraced spelled traced]
      simp [spelled, traced]

/-- A change makes a session compile or changes nothing. It makes it compile just for the paths
    at or under the module root, except for those that are misjudged. -/
theorem change_judged_iff (host : Host σ) (session : Session) (state : σ) (path : FilePath) :
    let tree := host.tree state
    let root := session.settings.modulesPath
    let handled := handle host (.changed path) session state
    (handled.1 ≠ .ignored → handled = recompile host session state) ∧
      (handled.1 = .ignored → handled = (.ignored, session, state)) ∧
      ((handled.1 ≠ .ignored ↔ tree.Under root path) ↔ ¬ Misjudged tree root path) := by
  intro tree root handled
  have ignored : handled.1 = .ignored ↔ concerns tree session.settings path = false :=
    handle_ignored_iff
  refine ⟨fun met => ?_, fun met => handle_ignored (ignored.1 met), ?_⟩
  · have near : concerns tree session.settings path = true := by
      simpa using mt ignored.2 met
    exact handle_rebuilds near
  · rw [ne_eq, ignored, Bool.not_eq_false]
    exact concerns_exact_iff tree session.settings path

/-! A file outside makes a session compile, one in a directory that is gone is ignored, and so is
    one that is there right under the root, where the root is the home of the tree. -/

theorem changes_misjudged :
    let session := Session.of watchedSettings
    let atHome := Session.of { watchedSettings with modulesRoot := ⟨"."⟩ }
    let tree := watchedTree.put ["main.gjs"] (.file (.text "export default 2;"))
    let outside : FilePath := ⟨"./app/components/../side.gjs"⟩
    let gone : FilePath := ⟨"app/components/gone/x.gjs"⟩
    let bare : FilePath := ⟨"main.gjs"⟩
    ((handle shelfHost (.changed outside) session ⟨tree, []⟩).1 ≠ .ignored ∧
        ¬ tree.Under session.settings.modulesPath outside) ∧
      ((handle shelfHost (.changed gone) session ⟨tree, []⟩).1 = .ignored ∧
        tree.Under session.settings.modulesPath gone) ∧
      ((handle shelfHost (.changed bare) atHome ⟨tree, []⟩).1 = .ignored ∧
        tree.isFile bare = true ∧ tree.Under atHome.settings.modulesPath bare) := by
  intro session atHome tree outside gone bare
  rw [ne_eq, handle_ignored_iff, handle_ignored_iff, handle_ignored_iff]
  decide +kernel

end ComponentBundle.Bundle
