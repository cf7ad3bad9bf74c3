import ComponentBundle.Project.Fingerprint
import ComponentBundle.Proofs.SessionRuns
import ComponentBundle.Proofs.ComponentListing

/-!
Watching the module root. Two snapshots are compared path by path, whatever the spelling, so a
file that was written, added or removed is listed, and whatever is listed concerns the session.
-/
namespace ComponentBundle.Project
open ComponentBundle.Text ComponentBundle.Files

variable {snapshot current previous : Snapshot} {print : Fingerprint} {path : FilePath}
  {digest : Text}

def Snapshot.Apart (snapshot : Snapshot) : Prop :=
  (snapshot.map fun print => print.path.parts).Nodup

theorem same_iff {a b : FilePath} : a.same b = true ↔ a.parts = b.parts := by
  simp [FilePath.same]

theorem digestOf?_congr (snapshot : Snapshot) {a b : FilePath} (same : a.parts = b.parts) :
    digestOf? snapshot a = digestOf? snapshot b := by
  simp only [digestOf?, FilePath.same, same]

theorem digestOf?_eq_none_iff :
    digestOf? snapshot path = none ↔ ∀ print ∈ snapshot, print.path.parts ≠ path.parts := by
  simp [digestOf?, FilePath.same]

theorem Snapshot.Apart.eq (apart : snapshot.Apart) {other : Fingerprint} (first : print ∈ snapshot)
    (second : other ∈ snapshot) (same : print.path.parts = other.path.parts) : print = other :=
  List.inj_on_of_nodup_map apart first second same

theorem Snapshot.Apart.digestOf?_eq_some_iff (apart : snapshot.Apart) :
    digestOf? snapshot path = some digest ↔
      ∃ print ∈ snapshot, print.path.parts = path.parts ∧ print.digest = digest := by
  constructor
  · intro h
    obtain ⟨print, found, told⟩ := Option.map_eq_some_iff.1 h
    have same := List.find?_some found
    exact ⟨print, List.mem_of_find?_eq_some found, same_iff.1 same, told⟩
  · rintro ⟨print, member, same, told⟩
    cases found : digestOf? snapshot path with
    | none => exact absurd same (digestOf?_eq_none_iff.1 found print member)
    | some other =>
      obtain ⟨first, seen, rfl⟩ := Option.map_eq_some_iff.1 found
      have alike := List.find?_some (p := fun print : Fingerprint => print.path.same path) seen
      rw [apart.eq (List.mem_of_find?_eq_some seen) member ((same_iff.1 alike).trans same.symm),
        told]

theorem Snapshot.Apart.digestOf?_path (apart : snapshot.Apart) (member : print ∈ snapshot) :
    digestOf? snapshot print.path = some print.digest :=
  apart.digestOf?_eq_some_iff.2 ⟨print, member, rfl, rfl⟩

/-- What a list of paths has to do with two snapshots that it is the difference of. -/
structure Compares (changed : List FilePath) (current previous : Snapshot) : Prop where
  /-- What is new or differs comes in the current order, then what is gone in the previous one. -/
  ordered : changed
    = (current.map Fingerprint.path).filter
        (fun path => digestOf? current path ≠ digestOf? previous path)
      ++ (previous.map Fingerprint.path).filter fun path => digestOf? current path = none
  once : (changed.map FilePath.parts).Nodup
  listed_iff : ∀ path, (∃ listed ∈ changed, listed.same path) ↔
    digestOf? current path ≠ digestOf? previous path
  empty_iff : changed = [] ↔ ∀ path, digestOf? current path = digestOf? previous path

theorem differences_eq (now : current.Apart) :
    differences current previous
      = (current.map Fingerprint.path).filter
          (fun path => digestOf? current path ≠ digestOf? previous path)
        ++ (previous.map Fingerprint.path).filter fun path => digestOf? current path = none := by
  rw [differences, List.filter_map, List.filter_map]
  congr 2
  · refine List.filter_congr fun print member => ?_
    simp only [Function.comp_apply, now.digestOf?_path member, ne_comm]
  · refine List.filter_congr fun print member => ?_
    rw [Function.comp_apply, Bool.eq_iff_iff, Option.isNone_iff_eq_none, decide_eq_true_eq]

theorem mem_differences (now : current.Apart) :
    path ∈ differences current previous ↔
      (path ∈ current.map Fingerprint.path ∧ digestOf? current path ≠ digestOf? previous path) ∨
        path ∈ previous.map Fingerprint.path ∧ digestOf? current path = none := by
  rw [differences_eq now, List.mem_append, List.mem_filter, List.mem_filter]
  simp

theorem differences_listed_iff (now : current.Apart) (before : previous.Apart)
    (path : FilePath) :
    (∃ listed ∈ differences current previous, listed.same path) ↔
      digestOf? current path ≠ digestOf? previous path := by
  constructor
  · rintro ⟨listed, member, same⟩
    rw [← digestOf?_congr current (same_iff.1 same), ← digestOf?_congr previous (same_iff.1 same)]
    rcases (mem_differences now).1 member with ⟨-, differs⟩ | ⟨known, gone⟩
    · exact differs
    · obtain ⟨print, inside, rfl⟩ := List.mem_map.1 known
      rw [gone, before.digestOf?_path inside]
      simp
  · intro differs
    cases found : digestOf? current path with
    | some digest =>
      obtain ⟨print, inside, same, -⟩ := now.digestOf?_eq_some_iff.1 found
      refine ⟨print.path, (mem_differences now).2 (.inl ⟨List.mem_map_of_mem inside, ?_⟩),
        same_iff.2 same⟩
      rwa [digestOf?_congr current same, digestOf?_congr previous same]
    | none =>
      cases known : digestOf? previous path with
      | none => exact absurd (found.trans known.symm) differs
      | some digest =>
        obtain ⟨print, inside, same, -⟩ := before.digestOf?_eq_some_iff.1 known
        refine ⟨print.path, (mem_differences now).2 (.inr ⟨List.mem_map_of_mem inside, ?_⟩),
          same_iff.2 same⟩
        rw [digestOf?_congr current same, found]

theorem differences_once (now : current.Apart) (before : previous.Apart) :
    ((differences current previous).map FilePath.parts).Nodup := by
  have paths {snapshot : Snapshot} (apart : snapshot.Apart) :
      ((snapshot.map Fingerprint.path).map FilePath.parts).Nodup := by
    rwa [List.map_map]
  rw [differences_eq now, List.map_append, List.nodup_append']
  refine ⟨(paths now).sublist (List.filter_sublist.map _),
    (paths before).sublist (List.filter_sublist.map _), ?_⟩
  intro parts first second
  obtain ⟨there, member, rfl⟩ := List.mem_map.1 first
  obtain ⟨gone, absent, same⟩ := List.mem_map.1 second
  obtain ⟨print, inside, rfl⟩ := List.mem_map.1 (List.mem_of_mem_filter member)
  have none : digestOf? current gone = none := by simpa using (List.mem_filter.1 absent).2
  exact digestOf?_eq_none_iff.1 none print inside same.symm

theorem differences_compares (now : current.Apart) (before : previous.Apart) :
    Compares (differences current previous) current previous where
  ordered := differences_eq now
  once := differences_once now before
  listed_iff := differences_listed_iff now before
  empty_iff := by
    have listed := differences_listed_iff now before
    constructor
    · intro empty path
      by_contra differs
      obtain ⟨other, member, -⟩ := (listed path).2 differs
      simp [empty] at member
    · intro alike
      refine List.eq_nil_iff_forall_not_mem.2 fun path member => ?_
      exact (listed path).1 ⟨path, member, same_iff.2 rfl⟩ (alike path)

variable {tree : FileTree} {root : FilePath}

/-- A path leads from the root by the names of a file, and this is the digest of its content. -/
def FileDigest (tree : FileTree) (root path : FilePath) (digest : Text) : Prop :=
  ∃ key names content, tree.locate root = .ok key ∧
    (key ++ names, .file content) ∈ tree.entries ∧ (root.below names).parts = path.parts ∧
    Digest.sha256 content.bytes = digest

theorem mem_fingerprints :
    print ∈ fingerprints tree root ↔ ∃ key names content, tree.locate root = .ok key ∧
      (key ++ names, .file content) ∈ tree.entries ∧
      print = ⟨root.below names, Digest.sha256 content.bytes⟩ := by
  rw [fingerprints, List.mem_map]
  constructor
  · rintro ⟨file, listed, rfl⟩
    obtain ⟨key, located, entry, spelled⟩ := mem_listFiles.1 listed
    exact ⟨key, file.names, file.content, located, entry, by rw [spelled]⟩
  · rintro ⟨key, names, content, located, entry, rfl⟩
    exact ⟨⟨_, names, content⟩, mem_listFiles.2 ⟨key, located, entry, rfl⟩, rfl⟩

theorem fingerprints_apart (named : tree.ProperlyNamed) (root : FilePath) :
    Snapshot.Apart (fingerprints tree root) := by
  rw [Snapshot.Apart, fingerprints, List.map_map]
  refine List.pairwise_map.2 ((listFiles_apart tree root).imp_of_mem ?_)
  intro a b first second apart same
  obtain ⟨key, located, -, spelledA⟩ := mem_listFiles.1 first
  obtain ⟨-, -, -, spelledB⟩ := mem_listFiles.1 second
  have spelled := FileTree.spelled_of_locate located
  simp only [Function.comp_apply, spelledA, spelledB,
    FilePath.parts_below spelled (named.listed first),
    FilePath.parts_below spelled (named.listed second), List.append_cancel_left_eq] at same
  exact apart ((List.map_inj_right fun _ _ => FilePath.Part.name.inj).1 same)

theorem digestOf?_fingerprints (named : tree.ProperlyNamed) :
    digestOf? (fingerprints tree root) path = some digest ↔ FileDigest tree root path digest := by
  rw [(fingerprints_apart named root).digestOf?_eq_some_iff]
  constructor
  · rintro ⟨print, member, same, told⟩
    obtain ⟨key, names, content, located, entry, rfl⟩ := mem_fingerprints.1 member
    exact ⟨key, names, content, located, entry, same, told⟩
  · rintro ⟨key, names, content, located, entry, same, told⟩
    exact ⟨_, mem_fingerprints.2 ⟨key, names, content, located, entry, rfl⟩, same, told⟩

theorem startsWith_of_mem_fingerprints (named : tree.ProperlyNamed)
    (member : print ∈ fingerprints tree root) : print.path.startsWith root = true := by
  obtain ⟨key, names, content, located, entry, rfl⟩ := mem_fingerprints.1 member
  have proper : ∀ name ∈ names, ProperName name :=
    fun name inside => named _ entry name (List.mem_append_right _ inside)
  rw [FilePath.startsWith, FilePath.parts_below (FileTree.spelled_of_locate located) proper]
  simp

end ComponentBundle.Project

namespace ComponentBundle.Bundle
open ComponentBundle.Text ComponentBundle.Files ComponentBundle.Project

theorem concerns_of_startsWith {settings : Settings} {path : FilePath}
    (below : path.startsWith settings.modulesPath = true) (tree : FileTree) :
    concerns tree settings path = true := by
  simp [concerns, below]

/-- Two states of the module root: their snapshots hold the digests of the files that there
    are, their difference lists each path whose digest is another one or is missing on one
    side, and a session that is told of a listed path rebuilds, whatever has become of it. -/
theorem no_change_missed {tree now : FileTree} (before : tree.ProperlyNamed)
    (after : now.ProperlyNamed) (settings : Settings) :
    let previous := fingerprints tree settings.modulesPath
    let current := fingerprints now settings.modulesPath
    (∀ path digest, digestOf? previous path = some digest ↔
        FileDigest tree settings.modulesPath path digest) ∧
      (∀ path digest, digestOf? current path = some digest ↔
        FileDigest now settings.modulesPath path digest) ∧
      Compares (differences current previous) current previous ∧
      ∀ path ∈ differences current previous, ∀ {σ : Type} (host : Host σ) (session : Session)
        (state : σ), session.settings = settings →
          handle host (.changed path) session state = recompile host session state ∧
            (handle host (.changed path) session state).1 ≠ .ignored := by
  intro previous current
  have apartNow := fingerprints_apart after settings.modulesPath
  have apartBefore := fingerprints_apart before settings.modulesPath
  refine ⟨fun path digest => digestOf?_fingerprints before,
    fun path digest => digestOf?_fingerprints after,
    differences_compares apartNow apartBefore, ?_⟩
  intro path listed σ host session state same
  have below : path.startsWith settings.modulesPath = true := by
    rcases (mem_differences apartNow).1 listed with ⟨known, -⟩ | ⟨known, -⟩
    · obtain ⟨print, member, rfl⟩ := List.mem_map.1 known
      exact startsWith_of_mem_fingerprints after member
    · obtain ⟨print, member, rfl⟩ := List.mem_map.1 known
      exact startsWith_of_mem_fingerprints before member
  have near : Event.rebuilds (.changed path) (host.tree state) session.settings = true :=
    concerns_of_startsWith (same ▸ below) _
  refine ⟨handle_rebuilds near, fun ignored => ?_⟩
  have met := handled host (.changed path) session state
  generalize handle host (.changed path) session state = result at met ignored
  cases met with
  | ignored far => exact absurd (near.symm.trans far) (by decide)
  | uncompiled near failed => contradiction
  | refused near made put => contradiction
  | published near made put => contradiction

/-! Two components of which one is edited, and the other is gone with its directory. -/

def watchedSettings : Settings := { entryPoint := some "main" }

def editedTree : FileTree :=
  (FileTree.atHome []).put ["app"] .directory
    |>.put ["app", "components"] .directory
    |>.put ["app", "components", "main.gjs"] (.file (.text "export default 2;"))

def watchedTree : FileTree :=
  (editedTree.put ["app", "components", "main.gjs"] (.file (.text "export default 1;"))).put
      ["app", "components", "form"] .directory
    |>.put ["app", "components", "form", "button.gjs"] (.file (.text "export default 3;"))

def watchedFile : FilePath := ⟨"./app/components/main.gjs"⟩

def watchedPrints : Snapshot :=
  [⟨⟨"./app/components/form/button.gjs"⟩, Digest.sha256 (Text.bytes "export default 3;")⟩,
    ⟨watchedFile, Digest.sha256 (Text.bytes "export default 1;")⟩]

theorem watched_printed :
    fingerprints watchedTree watchedSettings.modulesPath = watchedPrints := by
  have located : watchedTree.locate watchedSettings.modulesPath
      = .ok (["app", "components"] : Key) := by decide +kernel
  have below : watchedTree.filesBelow (["app", "components"] : Key)
      = [((["form", "button.gjs"] : Key), .text "export default 3;"),
        ((["main.gjs"] : Key), .text "export default 1;")] :=
    List.mergeSort_of_pairwise (by decide +kernel)
  rw [fingerprints, listFiles, located]
  dsimp only
  rw [below]
  decide +kernel

theorem edited_component_noticed :
    watchedTree.ProperlyNamed ∧ editedTree.ProperlyNamed ∧
      differences (fingerprints editedTree watchedSettings.modulesPath)
        (fingerprints watchedTree watchedSettings.modulesPath)
          = [watchedFile, ⟨"./app/components/form/button.gjs"⟩] ∧
      handle (directoryHost watchedSettings.outputPath) (.changed watchedFile)
          (.of watchedSettings) editedTree
        = recompile (directoryHost watchedSettings.outputPath) (.of watchedSettings) editedTree ∧
      (handle (directoryHost watchedSettings.outputPath) (.changed watchedFile)
        (.of watchedSettings) editedTree).1 ≠ .ignored := by
  have before : watchedTree.ProperlyNamed := by decide +kernel
  have after : editedTree.ProperlyNamed := by decide +kernel
  have changed : differences (fingerprints editedTree watchedSettings.modulesPath)
      (fingerprints watchedTree watchedSettings.modulesPath)
        = [watchedFile, ⟨"./app/components/form/button.gjs"⟩] := by
    rw [watched_printed]
    decide +kernel
  have listed : watchedFile ∈ differences
      (fingerprints editedTree watchedSettings.modulesPath)
      (fingerprints watchedTree watchedSettings.modulesPath) := by simp [changed]
  exact ⟨before, after, changed, (no_change_missed before after watchedSettings).2.2.2 watchedFile
    listed (directoryHost watchedSettings.outputPath) (.of watchedSettings) editedTree rfl⟩

end ComponentBundle.Bundle
