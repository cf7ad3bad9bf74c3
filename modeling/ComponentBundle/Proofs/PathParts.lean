import Mathlib.Data.List.Basic
import ComponentBundle.Proofs.Destination
import ComponentBundle.Proofs.EncodedText

/-!
The parts of paths that were put together. What stands behind a slash adds its own parts, and
names that a node can have come back from the path that they make.
-/
namespace ComponentBundle.Files.FilePath
open ComponentBundle.Text

theorem part?_ne_here (piece : Name) : part? piece ≠ some .here := by
  unfold part?
  split
  · simp
  · split <;> simp

theorem name_of_part? {piece name : Name} (part : part? piece = some (.name name)) :
    name = piece := by
  unfold part? at part
  split at part
  · contradiction
  · split at part
    · simp at part
    · simpa using part.symm

theorem part?_eq_name_iff {name : Name} :
    part? name = some (.name name) ↔ name ≠ [] ∧ name ≠ dot ∧ name ≠ dotDot := by
  unfold part?
  split
  · rename_i blank
    simp only [Bool.or_eq_true, List.isEmpty_iff, decide_eq_true_eq] at blank
    rcases blank with rfl | rfl <;> simp
  · rename_i filled
    simp only [Bool.or_eq_true, List.isEmpty_iff, decide_eq_true_eq, not_or] at filled
    split
    · rename_i up
      simp [up]
    · rename_i other
      simp [filled, other]

theorem extension?_eq_some_iff {path : FilePath} {rest : Name} :
    path.extension? = some rest ↔
      ∃ stem, stem ≠ [] ∧ path.fileName? = some (stem ++ dotByte :: rest) ∧ dotByte ∉ rest := by
  unfold extension?
  constructor
  · intro h
    obtain ⟨name, called, h⟩ := Option.bind_eq_some_iff.1 h
    obtain ⟨⟨stem, last⟩, cut, h⟩ := Option.bind_eq_some_iff.1 h
    dsimp only at h
    split at h
    · contradiction
    · rename_i filled
      obtain rfl := Option.some.inj h
      obtain ⟨rfl, free⟩ := splitLast?_eq_some_iff.1 cut
      exact ⟨stem, by simpa using filled, called, free⟩
  · rintro ⟨stem, filled, called, free⟩
    simp [called, splitLast?_append free, filled, bind, pure]

theorem parts_behind_lead (path : FilePath) :
    path.parts.filter (fun part => part ≠ .root ∧ part ≠ .here)
      = path.pieces.filterMap part? := by
  have lead : path.leading.filter (fun part => part ≠ .root ∧ part ≠ .here) = [] := by
    unfold leading
    split
    · rfl
    · split <;> rfl
  have behind : ∀ part ∈ path.pieces.filterMap part?, part ≠ .root ∧ part ≠ .here := by
    intro part inside
    obtain ⟨piece, -, found⟩ := List.mem_filterMap.1 inside
    refine ⟨?_, ?_⟩
    · rintro rfl
      exact FileTree.part?_ne_root piece found
    · rintro rfl
      exact part?_ne_here piece found
  rw [parts, List.filter_append, lead, List.nil_append, List.filter_eq_self]
  simpa using behind

theorem pieces_ne_nil (path : FilePath) : path.pieces ≠ [] := splitWhere_ne_nil _ _

theorem joined_pieces {a b : FilePath} (spelled : a.spelling ≠ [])
    (relative : b.isAbsolute = false) :
    (a.joined b).pieces = a.pieces ++ b.pieces ∨
      ∃ front, front ≠ [] ∧ a.pieces = front ++ [[]] ∧ (a.joined b).pieces = front ++ b.pieces := by
  unfold joined
  simp only [relative, Bool.false_eq_true, if_false, List.isEmpty_iff, spelled, Bool.or_eq_true,
    decide_eq_true_eq, false_or]
  split
  · rename_i slashed
    obtain ⟨start, ended⟩ := List.getLast?_eq_some_iff.1 slashed
    refine .inr ⟨splitOn slashByte start, splitWhere_ne_nil _ _, ?_, ?_⟩
    · rw [pieces, ended, splitOn_append_cons]
      rfl
    · rw [pieces, ended, List.append_assoc, List.singleton_append, splitOn_append_cons]
      rfl
  · exact .inl (splitOn_append_cons _ _ _)

theorem joined_isAbsolute {a b : FilePath} (spelled : a.spelling ≠ [])
    (relative : b.isAbsolute = false) : (a.joined b).isAbsolute = a.isAbsolute := by
  obtain ⟨first, more, start⟩ := List.exists_cons_of_ne_nil spelled
  unfold joined
  rw [relative]
  simp only [Bool.false_eq_true, if_false]
  split <;> simp [isAbsolute, start]

theorem joined_parts {a b : FilePath} (spelled : a.spelling ≠ [])
    (relative : b.isAbsolute = false) :
    (a.joined b).parts = a.parts ++ b.pieces.filterMap part? := by
  have absolute := joined_isAbsolute spelled relative
  have blank : part? [] = none := rfl
  rcases joined_pieces spelled relative with whole | ⟨front, filled, split, cut⟩
  · have head : (a.pieces ++ b.pieces).head? = a.pieces.head? :=
      List.head?_append_of_ne_nil _ (pieces_ne_nil a)
    simp [parts, leading, absolute, whole, head]
  · have head : (front ++ b.pieces).head? = (front ++ [[]]).head? := by
      rw [List.head?_append_of_ne_nil _ filled, List.head?_append_of_ne_nil _ filled]
    simp [parts, leading, absolute, cut, head, split, blank]

theorem joined_of_absolute {a b : FilePath} (absolute : b.isAbsolute = true) : a.joined b = b := by
  simp [joined, absolute]

theorem joined_of_empty {a b : FilePath} (empty : a.spelling = []) : a.joined b = b := by
  simp [joined, empty]

theorem joined_parts_congr (a : FilePath) {b c : FilePath} (same : b.parts = c.parts) :
    (a.joined b).parts = (a.joined c).parts := by
  have behind : b.pieces.filterMap part? = c.pieces.filterMap part? := by
    rw [← parts_behind_lead, same, parts_behind_lead]
  have absolute : b.isAbsolute = c.isAbsolute := by
    rw [Bool.eq_iff_iff, ← FileTree.parts_head_root_iff, same, FileTree.parts_head_root_iff]
  by_cases empty : a.spelling = []
  · rw [joined_of_empty empty, joined_of_empty empty, same]
  · cases rooted : c.isAbsolute with
    | true => rw [joined_of_absolute (absolute.trans rooted), joined_of_absolute rooted, same]
    | false => rw [joined_parts empty (absolute.trans rooted), joined_parts empty rooted, behind]

def leadOf : List Name → List Part
  | [] :: _ :: _ => [.root]
  | piece :: _ => if piece = dot then [.here] else []
  | [] => []

theorem leading_eq (path : FilePath) : path.leading = leadOf path.pieces := by
  obtain ⟨spelling⟩ := path
  cases spelling with
  | nil => rfl
  | cons c t =>
    obtain ⟨first, more, cut⟩ := List.exists_cons_of_ne_nil (splitWhere_ne_nil (· = slashByte) t)
    by_cases mark : c = slashByte
    · simp [leading, isAbsolute, pieces, splitOn, splitWhere, mark, cut, leadOf]
    · simp [leading, isAbsolute, pieces, splitOn, splitWhere, mark, cut, leadOf]

theorem parts_join_pieces {pieces : List Name} (filled : pieces ≠ [])
    (free : ∀ piece ∈ pieces, slashByte ∉ piece) :
    (FilePath.mk ([slashByte].intercalate pieces)).parts
      = leadOf pieces ++ pieces.filterMap part? := by
  have cut : (FilePath.mk ([slashByte].intercalate pieces)).pieces = pieces :=
    splitOn_intercalate filled free
  rw [parts, leading_eq, cut]

theorem leadOf_of_part {first : Name} {part : Part} (stands : part? first = some part)
    (more : List Name) : leadOf (first :: more) = [] := by
  have filled : first ≠ [] := by
    rintro rfl
    contradiction
  have other : first ≠ dot := by
    rintro rfl
    contradiction
  simp [leadOf, filled, other]

end ComponentBundle.Files.FilePath

namespace ComponentBundle.Files
open ComponentBundle.Text FilePath

/-- A name that a node can have in a directory. -/
structure ProperName (name : Name) : Prop where
  part : part? name = some (.name name)
  whole : slashByte ∉ name

instance (name : Name) : Decidable (ProperName name) :=
  decidable_of_iff (part? name = some (.name name) ∧ slashByte ∉ name)
    ⟨fun ⟨part, whole⟩ => ⟨part, whole⟩, fun ⟨part, whole⟩ => ⟨part, whole⟩⟩

variable {name : Name}

theorem ProperName.ne_nil (proper : ProperName name) : name ≠ [] := by
  rintro rfl
  exact absurd proper.part (by decide)

theorem ProperName.pieces (proper : ProperName name) : (FilePath.mk name).pieces = [name] := by
  have alone := splitOn_intercalate (List.cons_ne_nil name []) fun piece inside =>
    List.mem_singleton.1 inside ▸ proper.whole
  simpa [FilePath.pieces] using alone

theorem ProperName.shown (proper : ProperName name) :
    ProperName (Text.bytes (Text.shown name)) := by
  obtain ⟨filled, notDot, notUp⟩ := part?_eq_name_iff.1 proper.part
  have kept {t : Text} (whole : replacement ∉ t)
      (same : Text.bytes (Text.shown name) = Text.bytes t) :
      name = Text.bytes t := by
    have alike := bytes_injective same
    rw [← alike, bytes_shown (alike ▸ whole)]
  refine ⟨part?_eq_name_iff.2 ⟨?_, fun same => notDot ?_, fun same => notUp ?_⟩, ?_⟩
  · exact bytes_ne_nil (mt shown_eq_nil_iff.1 filled)
  · exact kept (t := ['.']) (by decide) same
  · exact kept (t := ['.', '.']) (by decide) same
  · intro inside
    exact proper.whole ((mem_shown_iff (c := slash) (by decide)).1
      ((toUInt8_mem_bytes_iff (by decide)).1 inside))

theorem ProperName.relative (proper : ProperName name) : (FilePath.mk name).isAbsolute = false := by
  refine Bool.eq_false_iff.2 fun absolute => proper.whole ?_
  exact List.mem_of_head? (by simpa [isAbsolute] using absolute)

theorem parts_join {names : List Name} (proper : ∀ name ∈ names, ProperName name) :
    (FilePath.mk ([slashByte].intercalate names)).parts = names.map .name := by
  cases names with
  | nil => rfl
  | cons first more =>
    have named := (proper first List.mem_cons_self).part
    have parts : (first :: more).filterMap part? = (first :: more).map .name :=
      List.filterMap_eq_map_iff_forall_eq_some.2 fun name inside => (proper name inside).part
    rw [parts_join_pieces (List.cons_ne_nil _ _) fun name inside => (proper name inside).whole,
      leadOf_of_part named, parts, List.nil_append]

theorem ofText_join (pieces : List Text) :
    FilePath.mk (Text.bytes (join [slash] pieces))
      = ⟨[slashByte].intercalate (pieces.map Text.bytes)⟩ := by
  rw [← intercalate_bytes (c := slash) (by decide)]
  rfl

theorem isAbsolute_bytes {t : Text} :
    (FilePath.mk (Text.bytes t)).isAbsolute = true ↔ t.head? = some slash := by
  rw [isAbsolute, decide_eq_true_eq]
  exact head?_bytes_iff (by decide)

theorem fileName?_join {front : List Name} {last : Name}
    (proper : ∀ name ∈ front ++ [last], ProperName name) :
    (FilePath.mk ([slashByte].intercalate (front ++ [last]))).fileName? = some last := by
  simp [fileName?, parts_join proper]

end ComponentBundle.Files
