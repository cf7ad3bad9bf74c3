import ComponentBundle.Files.Tree

/-!
Where a path leads is decided by its parts alone: two spellings of one path that both
lead somewhere lead to the same node. A spelling can still lead nowhere, since a slash or
a dot at its end asks for a directory.
-/
namespace ComponentBundle.Files
open ComponentBundle.Text

def placeOf (here : Key) : FilePath.Part → Key
  | .name name => here ++ [name]
  | .up => here.dropLast
  | .root => here
  | .here => here

theorem foldl_placeOf_names (here : Key) (names : List Name) :
    (names.map FilePath.Part.name).foldl placeOf here = here ++ names := by
  induction names generalizing here with
  | nil => simp
  | cons name more ih =>
    rw [List.map_cons, List.foldl_cons, ih]
    simp [placeOf]

namespace FileTree

def destination (tree : FileTree) (parts : List FilePath.Part) : Key :=
  parts.foldl placeOf (if parts.head? = some .root then [] else tree.home)

theorem follow_eq_ok {tree : FileTree} {here key : Key} {pieces : List Name}
    (h : tree.follow here pieces = .ok key) :
    key = (pieces.filterMap FilePath.part?).foldl placeOf here := by
  induction pieces generalizing here with
  | nil =>
    simp only [follow, Except.ok.injEq] at h
    simp [h]
  | cons piece more ih =>
    unfold follow at h
    split at h
    · contradiction
    · contradiction
    · split at h
      · rename_i name part
        split at h
        · rw [ih h, List.filterMap_cons_some part]
          rfl
        · contradiction
      · rename_i part
        rw [ih h, List.filterMap_cons_some part]
        rfl
      · rename_i notName notUp
        rw [ih h]
        cases part : FilePath.part? piece with
        | none => rw [List.filterMap_cons_none part]
        | some other =>
          rw [List.filterMap_cons_some part]
          cases other with
          | name name => exact absurd part (notName name)
          | up => exact absurd part notUp
          | root => rfl
          | here => rfl

theorem part?_ne_root (piece : Name) : FilePath.part? piece ≠ some .root := by
  unfold FilePath.part?
  split
  · simp
  · split <;> simp

theorem parts_head_root_iff (path : FilePath) :
    path.parts.head? = some .root ↔ path.isAbsolute = true := by
  unfold FilePath.parts FilePath.leading
  split
  · rename_i absolute
    simp [absolute]
  · rename_i relative
    split
    · simp [relative]
    · simp only [List.nil_append, relative, Bool.false_eq_true, iff_false]
      intro head
      have inside := List.mem_of_head? head
      obtain ⟨piece, -, part⟩ := List.mem_filterMap.1 inside
      exact part?_ne_root piece part

theorem leading_placeOf (path : FilePath) (here : Key) :
    path.leading.foldl placeOf here = here := by
  unfold FilePath.leading
  split
  · rfl
  · split <;> rfl

theorem locate_eq_ok {tree : FileTree} {path : FilePath} {key : Key}
    (h : tree.locate path = .ok key) : key = tree.destination path.parts := by
  unfold locate at h
  split at h
  · contradiction
  · rw [follow_eq_ok h, destination, start]
    simp only [parts_head_root_iff]
    rw [FilePath.parts, List.foldl_append, leading_placeOf]

theorem find?_agrees {tree : FileTree} {a b : FilePath} {first second : Node}
    (same : a.parts = b.parts) (foundA : tree.find? a = .ok first)
    (foundB : tree.find? b = .ok second) : first = second := by
  obtain ⟨keyA, locatedA, nodeA⟩ := find?_eq_ok foundA
  obtain ⟨keyB, locatedB, nodeB⟩ := find?_eq_ok foundB
  have keys : keyA = keyB := by rw [locate_eq_ok locatedA, locate_eq_ok locatedB, same]
  rw [keys, nodeB] at nodeA
  exact (Option.some.inj nodeA).symm

theorem readText_unique {tree : FileTree} {a b : FilePath} {t u : Text} (same : a.parts = b.parts)
    (readA : tree.readText a = .ok t) (readB : tree.readText b = .ok u) : t = u := by
  have node := find?_agrees same (readText_eq_ok readA) (readText_eq_ok readB)
  exact Content.text.inj (Node.file.inj node)

theorem isFile_iff {tree : FileTree} {path : FilePath} :
    tree.isFile path = true ↔ ∃ content, tree.find? path = .ok (.file content) := by
  unfold isFile
  split <;> simp_all

theorem readText_agrees {tree : FileTree} {a b : FilePath} {t : Text} (same : a.parts = b.parts)
    (read : tree.readText a = .ok t) (file : tree.isFile b = true) : tree.readText b = .ok t := by
  obtain ⟨content, found⟩ := isFile_iff.1 file
  have node := find?_agrees same (readText_eq_ok read) found
  rw [← node] at found
  rw [readText, found]
  rfl

end FileTree

end ComponentBundle.Files
