import Mathlib.Data.List.DropRight
import Mathlib.Data.List.Nodup
import ComponentBundle.Project.Discovery
import ComponentBundle.Proofs.PathParts

/-!
Which files are listed below a path, and in which order. A file is listed once, under the
names that lead to it. Its relative path shows these names, so two components have one relative
path only where names that differ are shown alike, which those of texts are not.
-/
namespace ComponentBundle.Text

structure Orders {α : Type} (notAfter : α → α → Bool) : Prop where
  total : ∀ a b, notAfter a b || notAfter b a
  trans : ∀ a b c, notAfter a b → notAfter b c → notAfter a c
  antisymm : ∀ a b, notAfter a b → notAfter b a → a = b

section
variable {α : Type} [DecidableEq α] {notAfter : α → α → Bool} {a b : α} {s t : List α}

@[simp] theorem notAfterBy_cons_self :
    notAfterBy notAfter (a :: s) (a :: t) = notAfterBy notAfter s t := if_pos rfl

theorem notAfterBy_cons_of_ne (differ : a ≠ b) :
    notAfterBy notAfter (a :: s) (b :: t) = notAfter a b := if_neg differ

theorem Orders.lists_total (orders : Orders notAfter) (s t : List α) :
    notAfterBy notAfter s t || notAfterBy notAfter t s := by
  induction s generalizing t with
  | nil => simp [notAfterBy]
  | cons a s ih =>
    cases t with
    | nil => simp [notAfterBy]
    | cons b t =>
      by_cases same : a = b
      · subst same
        simpa using ih t
      · rw [notAfterBy_cons_of_ne same, notAfterBy_cons_of_ne (Ne.symm same)]
        exact orders.total a b

theorem Orders.lists_trans (orders : Orders notAfter) (s t u : List α)
    (first : notAfterBy notAfter s t) (second : notAfterBy notAfter t u) :
    notAfterBy notAfter s u := by
  induction s generalizing t u with
  | nil => rfl
  | cons a s ih =>
    cases t with
    | nil => contradiction
    | cons b t =>
      cases u with
      | nil => contradiction
      | cons c u =>
        by_cases early : a = b
        · subst early
          rw [notAfterBy_cons_self] at first
          by_cases late : a = c
          · subst late
            rw [notAfterBy_cons_self] at second ⊢
            exact ih t u first second
          · rwa [notAfterBy_cons_of_ne late] at second ⊢
        · rw [notAfterBy_cons_of_ne early] at first
          by_cases late : b = c
          · subst late
            rwa [notAfterBy_cons_of_ne early]
          · rw [notAfterBy_cons_of_ne late] at second
            have round : a ≠ c := by
              rintro rfl
              exact early (orders.antisymm a b first second)
            rw [notAfterBy_cons_of_ne round]
            exact orders.trans a b c first second

theorem Orders.lists_antisymm (orders : Orders notAfter) (s t : List α)
    (first : notAfterBy notAfter s t) (second : notAfterBy notAfter t s) : s = t := by
  induction s generalizing t with
  | nil =>
    cases t with
    | nil => rfl
    | cons b t => contradiction
  | cons a s ih =>
    cases t with
    | nil => contradiction
    | cons b t =>
      by_cases same : a = b
      · subst same
        rw [notAfterBy_cons_self] at first second
        rw [ih t first second]
      · rw [notAfterBy_cons_of_ne same] at first
        rw [notAfterBy_cons_of_ne (Ne.symm same)] at second
        exact absurd (orders.antisymm a b first second) same

theorem Orders.lists (orders : Orders notAfter) : Orders (notAfterBy notAfter) :=
  ⟨orders.lists_total, orders.lists_trans, orders.lists_antisymm⟩

end

theorem notAfter_orders : Orders notAfter :=
  Orders.lists (α := Char)
    { total := fun a b => by simpa using Nat.le_total a.toNat b.toNat
      trans := fun a b c first second => by
        simp only [decide_eq_true_eq] at first second ⊢
        exact Nat.le_trans first second
      antisymm := fun a b first second => by
        simp only [decide_eq_true_eq] at first second
        exact Char.toNat_inj.1 (Nat.le_antisymm first second) }

theorem bytesNotAfter_orders : Orders bytesNotAfter :=
  Orders.lists (α := UInt8)
    { total := fun a b => by simpa using UInt8.le_total a b
      trans := fun a b c first second => by
        simp only [decide_eq_true_eq] at first second ⊢
        exact UInt8.le_trans first second
      antisymm := fun a b first second => by
        simp only [decide_eq_true_eq] at first second
        exact UInt8.le_antisymm first second }

theorem namesNotAfter_orders : Orders namesNotAfter := bytesNotAfter_orders.lists

end ComponentBundle.Text

namespace ComponentBundle.Files
open ComponentBundle.Text

def FilePath.below (path : FilePath) (names : List Name) : FilePath :=
  names.foldl (fun path name => path.joined ⟨name⟩) path

variable {tree : FileTree} {path : FilePath} {key : Key} {names : List Name} {content : Content}

theorem FilePath.parts_below (spelled : path.spelling ≠ [])
    (proper : ∀ name ∈ names, ProperName name) :
    (path.below names).parts = path.parts ++ names.map .name := by
  induction names generalizing path with
  | nil => simp [below]
  | cons name more ih =>
    obtain ⟨first, rest⟩ := List.forall_mem_cons.1 proper
    have next : (path.joined ⟨name⟩).spelling ≠ [] := by
      unfold joined
      rw [first.relative]
      simp only [Bool.false_eq_true, if_false]
      split <;> simp [spelled]
    have parts := joined_parts spelled first.relative
    rw [first.pieces, List.filterMap_cons_some first.part] at parts
    rw [below, List.foldl_cons, ← below, ih next rest, parts]
    simp

theorem FileTree.spelled_of_locate (located : tree.locate path = .ok key) : path.spelling ≠ [] := by
  intro empty
  simp [locate, empty] at located

theorem below?_eq_some_iff {other : Key} :
    below? key other = some names ↔ other = key ++ names := by
  induction key generalizing other with
  | nil => simp [below?]
  | cons a key ih =>
    cases other with
    | nil => simp [below?]
    | cons b other =>
      by_cases same : a = b
      · simp [below?, same, ih]
      · simp [below?, same, Ne.symm same]

theorem listed_eq_some_iff {entry : Key × Node} :
    (match below? key entry.1, entry.2 with
      | some names, .file content => some (names, content)
      | _, _ => none) = some (names, content) ↔ entry = (key ++ names, .file content) := by
  obtain ⟨other, node⟩ := entry
  constructor
  · intro found
    cases below : below? key other with
    | none => simp [below] at found
    | some rest =>
      cases node with
      | directory => simp [below] at found
      | file old =>
        obtain ⟨rfl, rfl⟩ : rest = names ∧ old = content := by simpa [below] using found
        rw [below?_eq_some_iff.1 below]
  · intro same
    obtain ⟨rfl, rfl⟩ := Prod.mk.inj same
    have below : below? key (key ++ names) = some names := below?_eq_some_iff.2 rfl
    simp [below]

theorem mem_filesBelow :
    (names, content) ∈ tree.filesBelow key ↔ (key ++ names, .file content) ∈ tree.entries := by
  rw [FileTree.filesBelow, List.mem_mergeSort, List.mem_filterMap]
  constructor
  · rintro ⟨entry, inside, found⟩
    exact listed_eq_some_iff.1 found ▸ inside
  · intro inside
    exact ⟨_, inside, listed_eq_some_iff.2 rfl⟩

theorem filesBelow_apart (tree : FileTree) (key : Key) :
    (tree.filesBelow key).Pairwise fun a b => a.1 ≠ b.1 := by
  have apart := List.pairwise_map.1 tree.distinct
  refine List.Perm.pairwise (List.mergeSort_perm _ _).symm
    (List.Pairwise.filterMap _ ?_ apart) fun ne => ne.symm
  intro first second ne one found two again same
  refine ne ?_
  rw [listed_eq_some_iff.1 found, listed_eq_some_iff.1 again, same]

theorem mem_listFiles {file : ListedFile} :
    file ∈ listFiles tree path ↔ ∃ key, tree.locate path = .ok key ∧
      (key ++ file.names, .file file.content) ∈ tree.entries ∧
      file.path = path.below file.names := by
  unfold listFiles
  cases located : tree.locate path with
  | error fault => simp
  | ok key =>
    simp only [List.mem_map, Except.ok.injEq, exists_eq_left']
    constructor
    · rintro ⟨⟨names, content⟩, listed, rfl⟩
      exact ⟨mem_filesBelow.1 listed, rfl⟩
    · rintro ⟨listed, spelled⟩
      exact ⟨(file.names, file.content), mem_filesBelow.2 listed,
        congrArg (ListedFile.mk · file.names file.content) spelled.symm⟩

theorem listFiles_apart (tree : FileTree) (path : FilePath) :
    (listFiles tree path).Pairwise fun a b => a.names ≠ b.names := by
  unfold listFiles
  cases tree.locate path with
  | error fault => exact .nil
  | ok key => exact List.pairwise_map.2 (filesBelow_apart tree key)

def FileTree.ProperlyNamed (tree : FileTree) : Prop :=
  ∀ entry ∈ tree.entries, ∀ name ∈ entry.1, ProperName name

instance (tree : FileTree) : Decidable tree.ProperlyNamed :=
  inferInstanceAs (Decidable (∀ entry ∈ tree.entries, ∀ name ∈ entry.1, ProperName name))

/-- All names are the bytes of texts, namely of what is shown of them. -/
def FileTree.NamedInText (tree : FileTree) : Prop :=
  ∀ entry ∈ tree.entries, ∀ name ∈ entry.1, Text.bytes (Text.shown name) = name

instance (tree : FileTree) : Decidable tree.NamedInText :=
  inferInstanceAs
    (Decidable (∀ entry ∈ tree.entries, ∀ name ∈ entry.1, Text.bytes (Text.shown name) = name))

theorem FileTree.ProperlyNamed.below (named : tree.ProperlyNamed) {node : Node}
    (entry : (key ++ names, node) ∈ tree.entries) : ∀ name ∈ names, ProperName name :=
  fun name inside => named _ entry name (List.mem_append_right _ inside)

theorem FileTree.ProperlyNamed.listed (named : tree.ProperlyNamed) {file : ListedFile}
    (found : file ∈ listFiles tree path) : ∀ name ∈ file.names, ProperName name := by
  obtain ⟨key, -, entry, -⟩ := mem_listFiles.1 found
  exact named.below entry

end ComponentBundle.Files

namespace ComponentBundle.Project
open ComponentBundle.Text ComponentBundle.Files

variable {tree : FileTree} {root : FilePath} {extension : Text} {location : Location}

/-- A component file below a root: what its path and its relative path are follows from the
    names that lead to it. -/
def ComponentAt (tree : FileTree) (root : FilePath) (extension : Text) (location : Location) :
    Prop :=
  ∃ key names content, tree.locate root = .ok key ∧
    (key ++ names, .file content) ∈ tree.entries ∧
    location = ⟨root.below names, join [slash] (names.map Text.shown)⟩ ∧
    location.path.extension? = some (Text.bytes (withoutDots extension))

theorem mem_componentFiles :
    location ∈ componentFiles tree root extension ↔ ComponentAt tree root extension location := by
  simp only [componentFiles, List.mem_mergeSort, List.mem_map, List.mem_filter, decide_eq_true_eq]
  constructor
  · rintro ⟨file, ⟨listed, extended⟩, rfl⟩
    obtain ⟨key, located, entry, spelled⟩ := mem_listFiles.1 listed
    exact ⟨key, file.names, file.content, located, entry, by rw [← spelled]; rfl, extended⟩
  · rintro ⟨key, names, content, located, entry, rfl, extended⟩
    exact ⟨⟨_, names, content⟩, ⟨mem_listFiles.2 ⟨key, located, entry, rfl⟩, extended⟩, rfl⟩

theorem componentFiles_sorted (tree : FileTree) (root : FilePath) (extension : Text) :
    (componentFiles tree root extension).Pairwise fun a b => notAfter a.relative b.relative :=
  List.pairwise_mergeSort (fun a b c => notAfter_orders.trans a.relative b.relative c.relative)
    (fun a b => notAfter_orders.total a.relative b.relative) _

theorem withoutDots_withoutDots (extension : Text) :
    withoutDots (withoutDots extension) = withoutDots extension :=
  List.dropWhile_idempotent _ _

theorem componentFiles_withoutDots (tree : FileTree) (root : FilePath) (extension : Text) :
    componentFiles tree root (withoutDots extension) = componentFiles tree root extension := by
  rw [componentFiles, componentFiles, withoutDots_withoutDots]

theorem componentFiles_apart (named : tree.ProperlyNamed) (root : FilePath) (extension : Text) :
    ((componentFiles tree root extension).map fun location => location.path.parts).Nodup := by
  refine ((List.mergeSort_perm _ _).map _).nodup_iff.2 ?_
  rw [List.map_map]
  refine List.pairwise_map.2 (((listFiles_apart tree root).filter _).imp_of_mem ?_)
  intro a b first second apart same
  have parts : ∀ file ∈ listFiles tree root,
      file.path.parts = root.parts ++ file.names.map .name := by
    intro file found
    obtain ⟨key, located, -, spelled⟩ := mem_listFiles.1 found
    rw [spelled]
    exact FilePath.parts_below (FileTree.spelled_of_locate located) (named.listed found)
  have alike : a.path.parts = b.path.parts := same
  rw [parts a (List.mem_of_mem_filter first), parts b (List.mem_of_mem_filter second),
    List.append_cancel_left_eq] at alike
  exact apart ((List.map_inj_right fun _ _ => FilePath.Part.name.inj).1 alike)

/-- No two component files have this relative path. -/
def ShownOnce (tree : FileTree) (root : FilePath) (extension relative : Text) : Prop :=
  ∀ a b, ComponentAt tree root extension a → ComponentAt tree root extension b →
    a.relative = relative → b.relative = relative → a = b

theorem shownOnce_withoutDots {relative : Text} :
    ShownOnce tree root (withoutDots extension) relative ↔
      ShownOnce tree root extension relative := by
  simp only [ShownOnce, ← mem_componentFiles, componentFiles_withoutDots]

theorem relatives_nodup_iff (named : tree.ProperlyNamed) (root : FilePath) (extension : Text)
    (p : Text → Bool) :
    (((componentFiles tree root extension).map Location.relative).filter p).Nodup ↔
      ∀ relative, p relative → ShownOnce tree root extension relative := by
  have once := ((componentFiles_apart named root extension).of_map).filter (p ∘ Location.relative)
  rw [List.filter_map, List.nodup_map_iff_inj_on once]
  simp only [List.mem_filter, mem_componentFiles, Function.comp_apply]
  constructor
  · intro alike relative kept a b first second own same
    exact alike a ⟨first, own ▸ kept⟩ b ⟨second, same ▸ kept⟩ (own.trans same.symm)
  · intro shown a first b second same
    exact shown b.relative second.2 a b first.1 second.1 same rfl

theorem parts_shown {names : List Name} (proper : ∀ name ∈ names, ProperName name) :
    (FilePath.mk (Text.bytes (join [slash] (names.map Text.shown)))).parts
      = (names.map Text.shown).map fun name => .name (Text.bytes name) := by
  rw [ofText_join, parts_join, List.map_map]
  · rfl
  · simp only [List.map_map, List.forall_mem_map]
    exact fun name inside => (proper name inside).shown

theorem shown_eq_of_parts {names others : List Name} (proper : ∀ name ∈ names, ProperName name)
    (properToo : ∀ name ∈ others, ProperName name)
    (same : (FilePath.mk (Text.bytes (join [slash] (names.map Text.shown)))).parts
      = (FilePath.mk (Text.bytes (join [slash] (others.map Text.shown)))).parts) :
    names.map Text.shown = others.map Text.shown := by
  rw [parts_shown proper, parts_shown properToo] at same
  exact (List.map_inj_right fun _ _ h => bytes_injective (FilePath.Part.name.inj h)).1 same

theorem shownOnce_of_namedInText (written : tree.NamedInText) (named : tree.ProperlyNamed)
    (relative : Text) : ShownOnce tree root extension relative := by
  rintro a b ⟨key, names, content, located, entry, rfl, -⟩
    ⟨other, others, more, again, mate, rfl, -⟩ own same
  obtain rfl := Except.ok.inj (located.symm.trans again)
  have plain {names : List Name} {content : Content}
      (entry : (key ++ names, .file content) ∈ tree.entries) :
      (names.map Text.shown).map Text.bytes = names := by
    refine (List.map_map.trans (List.map_congr_left fun name inside => ?_)).trans (List.map_id _)
    exact written _ entry name (List.mem_append_right _ inside)
  have spelled : join [slash] (names.map Text.shown) = join [slash] (others.map Text.shown) :=
    own.trans same.symm
  have alike := shown_eq_of_parts (named.below entry) (named.below mate) (by rw [spelled])
  rw [← plain entry, alike, plain mate]

/-! Two component files whose names are no texts. -/

def strayTree : FileTree :=
  (FileTree.atHome []).put ["parts"] .directory
    |>.put ["parts", 0xFE :: Text.bytes ".gjs"] (.file (.text "export default 1;"))
    |>.put ["parts", 0xFF :: Text.bytes ".gjs"] (.file (.text "export default 2;"))

example : ¬ ShownOnce strayTree ⟨"parts"⟩ "gjs" "\uFFFD.gjs" := by
  intro once
  have same := once ⟨⟨Text.bytes "parts/" ++ 0xFE :: Text.bytes ".gjs"⟩, "\uFFFD.gjs"⟩
    ⟨⟨Text.bytes "parts/" ++ 0xFF :: Text.bytes ".gjs"⟩, "\uFFFD.gjs"⟩
    ⟨["parts"], [0xFE :: Text.bytes ".gjs"], .text "export default 1;", by decide +kernel⟩
    ⟨["parts"], [0xFF :: Text.bytes ".gjs"], .text "export default 2;", by decide +kernel⟩ rfl rfl
  exact absurd same (by decide +kernel)

end ComponentBundle.Project
