import ComponentBundle.Proofs.ResolvedComponents

/-!
Paths that are made of names alone, dots and doubled slashes apart. With an ending put to it such
a path can come to end in a step up, but then it leads to no file. What it leads to behind
another path lies below where that path leads.
-/
namespace ComponentBundle.Text

theorem splitOn_append_free {α : Type} [DecidableEq α] {mark : α} {ending : List α}
    (free : mark ∉ ending) (t : List α) :
    ∃ front last, splitOn mark t = front ++ [last] ∧
      splitOn mark (t ++ ending) = front ++ [last ++ ending] := by
  induction t with
  | nil =>
    refine ⟨[], [], rfl, ?_⟩
    have alone := splitOn_intercalate (List.cons_ne_nil ending []) fun piece inside =>
      List.mem_singleton.1 inside ▸ free
    simpa using alone
  | cons c t ih =>
    obtain ⟨front, last, split, ended⟩ := ih
    unfold splitOn at split ended ⊢
    rw [List.cons_append, splitWhere, splitWhere, split, ended]
    by_cases cut : c = mark
    · exact ⟨[] :: front, last, by simp [cut], by simp [cut]⟩
    · cases front with
      | nil => exact ⟨[], c :: last, by simp [cut], by simp [cut]⟩
      | cons first front => exact ⟨(c :: first) :: front, last, by simp [cut], by simp [cut]⟩

end ComponentBundle.Text

namespace ComponentBundle.Files
open ComponentBundle.Text

variable {tree : FileTree} {root path : FilePath} {here key : Key} {names : List Name}

namespace FilePath

theorem root_notMem_pieces (pieces : List Name) : Part.root ∉ pieces.filterMap part? := by
  intro inside
  obtain ⟨piece, -, part⟩ := List.mem_filterMap.1 inside
  exact FileTree.part?_ne_root piece part

theorem parts_of_empty (empty : path.spelling = []) : path.parts = [] := by
  obtain ⟨spelling⟩ := path
  obtain rfl : spelling = [] := empty
  rfl

theorem part?_ne_none {piece : Name} (filled : piece ≠ []) (other : piece ≠ dot) :
    part? piece ≠ none := by
  rw [part?, if_neg (by simp [filled, other])]
  split <;> simp

theorem leading_of_names (named : path.parts = names.map .name) : path.leading = [] := by
  rw [List.eq_nil_iff_forall_not_mem]
  intro part inside
  have member : part ∈ names.map Part.name := named ▸ List.mem_append_left _ inside
  obtain ⟨name, -, rfl⟩ := List.mem_map.1 member
  unfold leading at inside
  split at inside
  · simp at inside
  · split at inside <;> simp at inside

theorem leading_eq_nil_iff :
    path.leading = [] ↔ path.isAbsolute = false ∧ path.pieces.head? ≠ some dot := by
  unfold leading
  cases path.isAbsolute with
  | true => simp
  | false =>
    simp only [Bool.false_eq_true, if_false, true_and]
    split <;> simp_all

theorem pieces_of_names (named : path.parts = names.map .name) :
    path.pieces.filterMap part? = names.map .name := by
  rw [parts, leading_of_names named, List.nil_append] at named
  exact named

theorem pieces_eq_cons (spelled : path.spelling ≠ []) (relative : path.isAbsolute = false) :
    ∃ c first rest, path.pieces = (c :: first) :: rest := by
  obtain ⟨c, more, split⟩ := List.exists_cons_of_ne_nil spelled
  have free : ¬ c = slashByte := by simpa [isAbsolute, split] using relative
  obtain ⟨first, rest, cut⟩ := List.exists_cons_of_ne_nil (splitWhere_ne_nil (· = slashByte) more)
  exact ⟨c, first, rest, by simp [pieces, split, splitOn, splitWhere, free, cut]⟩

theorem parts_ne_nil (spelled : path.spelling ≠ []) : path.parts ≠ [] := by
  intro none_
  rw [parts, List.append_eq_nil_iff, leading_eq_nil_iff, List.filterMap_eq_nil_iff] at none_
  obtain ⟨⟨relative, start⟩, blank⟩ := none_
  obtain ⟨c, first, rest, pieces⟩ := pieces_eq_cons spelled relative
  have other : c :: first ≠ dot := by simpa [pieces] using start
  exact part?_ne_none (List.cons_ne_nil _ _) other (blank _ (pieces ▸ List.mem_cons_self))

theorem joined_parts_of_names (named : path.parts = names.map .name) :
    (root.joined path).parts = root.parts ++ names.map .name := by
  have relative := (leading_eq_nil_iff.1 (leading_of_names named)).1
  by_cases empty : root.spelling = []
  · rw [joined_of_empty empty, parts_of_empty empty, List.nil_append, named]
  · rw [joined_parts empty relative, pieces_of_names named]

theorem parts_append {t ending : Name} (named : (FilePath.mk t).parts = names.map .name)
    (filled : t ≠ []) (free : slashByte ∉ ending) :
    ∃ front last, (FilePath.mk t).pieces = front ++ [last] ∧
      (FilePath.mk (t ++ ending)).pieces = front ++ [last ++ ending] ∧
      (FilePath.mk (t ++ ending)).leading = [] := by
  obtain ⟨front, last, pieces, ended⟩ := splitOn_append_free free t
  refine ⟨front, last, pieces, ended, leading_eq_nil_iff.2 ⟨?_, ?_⟩⟩
  all_goals obtain ⟨relative, start⟩ := leading_eq_nil_iff.1 (leading_of_names named)
  · obtain ⟨c, more, rfl⟩ := List.exists_cons_of_ne_nil filled
    simpa [isAbsolute] using relative
  · have whole : (FilePath.mk (t ++ ending)).pieces = front ++ [last ++ ending] := ended
    have own : (FilePath.mk t).pieces = front ++ [last] := pieces
    rw [own] at start
    rw [whole]
    cases front with
    | cons first more => simpa using start
    | nil =>
      have alone : t = last := by
        rw [← intercalate_splitOn slashByte t, pieces]
        simp
      subst alone
      rw [List.nil_append, List.head?_cons, ne_eq, Option.some.injEq, dot,
        List.append_eq_singleton_iff]
      rintro (⟨nothing, -⟩ | ⟨same, -⟩)
      · exact filled nothing
      · exact start (by simp [same, dot])

end FilePath

namespace FileTree

theorem destination_append {parts more : List FilePath.Part} (rootless : .root ∉ more) :
    tree.destination (parts ++ more) = more.foldl placeOf (tree.destination parts) := by
  rw [destination, destination, List.foldl_append]
  cases parts with
  | cons first rest => rfl
  | nil =>
    have start : more.head? ≠ some .root := fun head => rootless (List.mem_of_head? head)
    simp [start]

theorem destinationOf_of_empty (empty : root.spelling = []) :
    tree.destinationOf root = tree.home := by
  rw [destinationOf, FilePath.parts_of_empty empty]
  rfl

theorem follow_of_locate_joined (relative : path.isAbsolute = false)
    (h : tree.locate (root.joined path) = .ok key) :
    tree.follow (tree.destinationOf root) path.pieces = .ok key := by
  by_cases empty : root.spelling = []
  · rw [FilePath.joined_of_empty empty] at h
    rw [locate, if_neg (by simpa using spelled_of_locate h), start, relative] at h
    rw [destinationOf_of_empty empty]
    exact h
  · obtain ⟨here, located, -, behind⟩ := locate_joined empty relative h
    rwa [destinationOf, ← locate_eq_ok located]

theorem directory_above {pieces : List Name}
    (named : pieces.filterMap FilePath.part? = names.map .name) (filled : names ≠ [])
    (start : tree.node? here = some .directory)
    (h : tree.follow here pieces = .ok key) : tree.node? key.dropLast = some .directory := by
  induction pieces generalizing here names with
  | nil => exact absurd (List.map_eq_nil_iff.1 named.symm) filled
  | cons piece more ih =>
    rw [follow, start] at h
    dsimp only at h
    cases part : FilePath.part? piece with
    | none =>
      rw [List.filterMap_cons_none part] at named
      rw [part] at h
      exact ih named filled start h
    | some found =>
      rw [List.filterMap_cons_some part] at named
      obtain ⟨name, rest, rfl⟩ := List.exists_cons_of_ne_nil filled
      obtain ⟨rfl, behind⟩ := List.cons.inj named
      rw [part] at h
      dsimp only at h
      split at h
      · by_cases ended : rest = []
        · subst ended
          rw [follow_eq_ok h, behind]
          simpa using start
        · have filled : more ≠ [] := by
            rintro rfl
            exact ended (List.map_eq_nil_iff.1 behind.symm)
          exact ih behind ended (follow_ne_nil h filled) h
      · contradiction

theorem eq_dotDot_of_part? {piece : Name} (up : FilePath.part? piece = some .up) :
    piece = dotDot := by
  unfold FilePath.part? at up
  split at up
  · contradiction
  · split at up
    · assumption
    · simp at up

theorem not_isFile_of_step_up {front : List Name} (relative : path.isAbsolute = false)
    (pieces : path.pieces = front ++ [dotDot])
    (named : front.filterMap FilePath.part? = names.map .name) (filled : names ≠ []) :
    tree.isFile (root.joined path) = false := by
  rw [Bool.eq_false_iff]
  intro file
  obtain ⟨content, found⟩ := isFile_iff.1 file
  obtain ⟨key, located, node⟩ := find?_eq_ok found
  have way := follow_of_locate_joined relative located
  have start := follow_ne_nil way (FilePath.pieces_ne_nil path)
  obtain ⟨here, led, last⟩ := follow_append_eq_ok_iff.1 (pieces ▸ way)
  have above := directory_above named filled start led
  have up : key = here.dropLast := follow_eq_ok last
  simp [← up, node] at above

theorem before_dotDot {last ending : Name} (whole : last ++ ending = dotDot)
    (dotted : ending ≠ dotDot) : last = dot ∨ last = dotDot := by
  rcases List.append_eq_cons_iff.1 whole with ⟨-, same⟩ | ⟨rest, rfl, behind⟩
  · exact absurd same dotted
  · rcases List.append_eq_cons_iff.1 behind.symm with ⟨rfl, -⟩ | ⟨more, rfl, none_⟩
    · exact .inl rfl
    · obtain ⟨rfl, -⟩ := List.append_eq_nil_iff.1 none_.symm
      exact .inr rfl

/-- A path of names with an ending that leads to a file is made of names as well: the ending did
    not make a step up of its last piece. -/
theorem names_of_isFile {t ending : Name} (named : (FilePath.mk t).parts = names.map .name)
    (filled : t ≠ []) (free : slashByte ∉ ending) (dotted : ending ≠ dotDot)
    (file : tree.isFile (root.joined ⟨t ++ ending⟩) = true) :
    ∃ names : List Name, (FilePath.mk (t ++ ending)).parts = names.map .name := by
  obtain ⟨front, last, pieces, ended, lead⟩ := FilePath.parts_append named filled free
  have before := FilePath.pieces_of_names named
  rw [pieces, List.filterMap_append, eq_comm, List.map_eq_append_iff] at before
  obtain ⟨lower, upper, rfl, fronts, lasts⟩ := before
  rw [FilePath.parts, lead, List.nil_append, ended, List.filterMap_append, ← fronts]
  cases part : FilePath.part? (last ++ ending) with
  | none => exact ⟨lower, by simp [part]⟩
  | some found =>
    cases found with
    | root => exact absurd part (part?_ne_root _)
    | here => exact absurd part (FilePath.part?_ne_here _)
    | name name => exact ⟨lower ++ [name], by simp [part]⟩
    | up =>
      have whole := eq_dotDot_of_part? part
      rw [whole] at ended
      have single : last = dot := by
        refine (before_dotDot whole dotted).resolve_right ?_
        rintro rfl
        obtain ⟨name, rest, rfl⟩ := List.exists_cons_of_ne_nil
          (l := upper) (by rintro rfl; contradiction)
        simp [FilePath.part?, dot, dotDot] at lasts
      obtain rfl : upper = [] := by
        rw [single] at lasts
        exact List.map_eq_nil_iff.1 lasts
      have some_ : lower ≠ [] := by
        rintro rfl
        have spelled : (FilePath.mk t).spelling ≠ [] := filled
        exact FilePath.parts_ne_nil spelled (by simpa using named)
      have relative := (FilePath.leading_eq_nil_iff.1 lead).1
      rw [not_isFile_of_step_up relative ended fronts.symm some_] at file
      contradiction

end FileTree

end ComponentBundle.Files
