import ComponentBundle.Bundle.Publication
import ComponentBundle.Proofs.TreeChanges

/-!
What replacing a file does to a tree. The file is written beside its target and moved over
it, so two keys are touched; directories are made, and none is lost.
-/
namespace ComponentBundle.Bundle
open ComponentBundle.Text ComponentBundle.Files

variable {tree other after : FileTree} {target : FilePath} {content : Content} {problem : Problem}

structure Ready (tree : FileTree) (target : FilePath) : Prop where
  parent : ∀ parent, target.parent? = some parent →
    parent.spelling = [] ∨ tree.isDirectory parent = true
  temporary : tree.Receives (temporary target)
  target : tree.Receives target

def replaced (tree : FileTree) (target : FilePath) (content : Content) : FileTree :=
  ((tree.put (tree.destinationOf (temporary target)) (.file content)).without
    (· = tree.destinationOf (temporary target))).put (tree.destinationOf target) (.file content)

theorem node?_replaced (ready : Ready tree target) (key : Key) :
    (replaced tree target content).node? key =
      if key = tree.destinationOf target then some (.file content)
      else if key = tree.destinationOf (temporary target) then none
      else tree.node? key := by
  rw [replaced, FileTree.node?_put ready.target.ne_nil]
  by_cases empty : key = []
  · subst empty
    simp [Ne.symm ready.target.ne_nil, Ne.symm ready.temporary.ne_nil]
  · rw [FileTree.node?_without _ empty, FileTree.node?_put ready.temporary.ne_nil]
    simp only [decide_eq_true_eq]
    split
    · rfl
    · split <;> rfl

theorem keeps_put {key : Key} (present : key ≠ []) (free : tree.node? key ≠ some .directory) :
    tree.Keeps (tree.put key (.file content)) := by
  refine ⟨rfl, fun place found => ?_⟩
  rw [FileTree.node?_put present, if_neg, found]
  rintro rfl
  exact free found

theorem keeps_of_put {key : Key} (present : key ≠ []) :
    (tree.put key (.file content)).Keeps tree := by
  refine ⟨rfl, fun place found => ?_⟩
  rw [FileTree.node?_put present] at found
  split at found
  · simp at found
  · exact found

theorem keeps_replaced (ready : Ready tree target) : tree.Keeps (replaced tree target content) := by
  refine ⟨rfl, fun key found => ?_⟩
  rw [node?_replaced ready, if_neg, if_neg, found]
  · rintro rfl
    exact ready.temporary.free found
  · rintro rfl
    exact ready.target.free found

theorem receives_put {key : Key} {path : FilePath} (present : key ≠ [])
    (free : tree.node? key ≠ some .directory) :
    (tree.put key (.file content)).Receives path ↔ tree.Receives path := by
  constructor
  · intro receives
    refine receives.kept (keeps_of_put present) fun found => receives.free ?_
    exact (keeps_put present free).directories _ found
  · intro receives
    refine receives.kept (keeps_put present free) fun found => receives.free ?_
    exact (keeps_of_put present).directories _ found

theorem locate_temporary {path : FilePath} (receives : tree.Receives path) :
    (tree.put (tree.destinationOf path) (.file content)).locate path
      = .ok (tree.destinationOf path) := by
  have later : (tree.put (tree.destinationOf path) (.file content)).Receives path :=
    (receives_put receives.ne_nil receives.free).2 receives
  exact later.locate (by simp [FileTree.node?_put receives.ne_nil])

theorem step_eq_ok {path : FilePath} {change : Change}
    (h : step path change tree = (.ok (), after)) : change tree = (.ok (), after) := by
  unfold step at h
  split at h
  · rename_i made changed
    rw [changed, ← Prod.mk.inj h |>.2]
  · simp at h

theorem step_eq_error {path : FilePath} {change : Change}
    (h : step path change tree = (.error problem, after)) :
    ∃ fault, change tree = (.error fault, after) ∧ problem = .file path.shown fault := by
  unfold step at h
  split at h
  · simp at h
  · rename_i fault made changed
    obtain ⟨reason, rfl⟩ := Prod.mk.inj h
    exact ⟨fault, changed, (Except.error.inj reason).symm⟩

theorem step_of_ok {path : FilePath} {change : Change} (h : change tree = (.ok (), after)) :
    step path change tree = (.ok (), after) := by
  simp [step, h]

theorem move_eq_ok (beside : tree.Receives (temporary target))
    (h : moveFile (temporary target) target
      (tree.put (tree.destinationOf (temporary target)) (.file content)) = (.ok (), after)) :
    tree.Receives target ∧ after = replaced tree target content := by
  obtain ⟨old, node, located, found, receives, rfl⟩ := moveFile_eq_ok_iff.1 h
  obtain rfl := Except.ok.inj ((locate_temporary beside).symm.trans located)
  rw [FileTree.node?_put beside.ne_nil, if_pos rfl] at found
  obtain rfl := Option.some.inj found
  exact ⟨(receives_put beside.ne_nil beside.free).1 receives, rfl⟩

theorem move_of_receives (beside : tree.Receives (temporary target))
    (receives : tree.Receives target) :
    moveFile (temporary target) target
      (tree.put (tree.destinationOf (temporary target)) (.file content))
        = (.ok (), replaced tree target content) := by
  refine moveFile_eq_ok_iff.2 ⟨_, .file content, locate_temporary beside, ?_,
    (receives_put beside.ne_nil beside.free).2 receives, rfl⟩
  rw [FileTree.node?_put beside.ne_nil, if_pos rfl]

def directoriesTo (tree : FileTree) (target : FilePath) : List Key :=
  match target.parent? with
  | some parent => parent.ancestors.map tree.destinationOf
  | none => []

def prepared (tree : FileTree) (target : FilePath) : FileTree :=
  match target.parent? with
  | some parent => (makeDirectories parent tree).2
  | none => tree

theorem prepared_grown (tree : FileTree) (target : FilePath) :
    tree.Grown (prepared tree target) := by
  unfold prepared
  split
  · exact makeAncestors_grown _ tree
  · exact .rfl

theorem prepared_directory {key : Key}
    (found : (prepared tree target).node? key = some .directory) :
    tree.node? key = some .directory ∨ key ∈ directoriesTo tree target := by
  unfold prepared at found
  unfold directoriesTo
  split at found
  · exact (makeAncestors_made found).imp_right fun ⟨path, inside, same⟩ =>
      List.mem_map.2 ⟨path, inside, same.symm⟩
  · exact .inl found

theorem replaceFile_eq_ok (h : replaceFile target content tree = (.ok (), after)) :
    Ready (prepared tree target) target ∧
      after = replaced (prepared tree target) target content := by
  rw [replaceFile] at h
  split at h
  · simp at h
  · rename_i made directories
    obtain ⟨rfl, led⟩ : made = prepared tree target ∧ ∀ parent, target.parent? = some parent →
        parent.spelling = [] ∨ made.isDirectory parent = true := by
      split at directories
      · rename_i parent found
        have make := step_eq_ok directories
        refine ⟨by simp only [prepared, found, make], fun other same => ?_⟩
        obtain rfl := Option.some.inj (found.symm.trans same)
        exact makeDirectories_eq_ok make
      · rename_i found
        obtain rfl := (Prod.mk.inj directories).2
        exact ⟨by simp only [prepared, found], fun other same => by simp [found] at same⟩
    split at h
    · simp at h
    · rename_i written write
      obtain ⟨beside, rfl⟩ := writeFile_eq_ok_iff.1 (step_eq_ok write)
      split at h
      · simp at h
      · rename_i moved move
        obtain rfl := (Prod.mk.inj h).2
        obtain ⟨receives, rfl⟩ := move_eq_ok beside (step_eq_ok move)
        exact ⟨⟨led, beside, receives⟩, rfl⟩

theorem replaceFile_of_ready (ready : Ready tree target) :
    replaceFile target content tree = (.ok (), replaced tree target content) := by
  have write : writeFile (temporary target) content tree
      = (.ok (), tree.put (tree.destinationOf (temporary target)) (.file content)) :=
    writeFile_eq_ok_iff.2 ⟨ready.temporary, rfl⟩
  have move : step target (moveFile (temporary target) target)
      (tree.put (tree.destinationOf (temporary target)) (.file content))
        = (.ok (), replaced tree target content) :=
    step_of_ok (move_of_receives ready.temporary ready.target)
  rw [replaceFile]
  cases found : target.parent? with
  | none => simp [step_of_ok write, move]
  | some parent =>
    have directories := makeDirectories_of_isDirectory (ready.parent parent found)
    simp [step_of_ok directories, step_of_ok write, move]

/-- If a file is refused, nothing but directories was made, or the file beside it was written
    and is gone again. -/
theorem replaceFile_eq_error (h : replaceFile target content tree = (.error problem, after)) :
    tree.Grown after ∨
      (∃ fault, problem = .file target.shown fault) ∧ ∃ made, tree.Grown made ∧
        ∀ key, after.node? key =
          if key = tree.destinationOf (temporary target) then none else made.node? key := by
  rw [replaceFile] at h
  split at h
  · rename_i refused made directories
    obtain ⟨reason, rfl⟩ := Prod.mk.inj h
    left
    split at directories
    · obtain ⟨fault, make, -⟩ := step_eq_error directories
      exact makeDirectories_grown make
    · simp at directories
  · rename_i made directories
    have grown : tree.Grown made := by
      split at directories
      · exact makeDirectories_grown (step_eq_ok directories)
      · obtain rfl := (Prod.mk.inj directories).2
        exact .rfl
    split at h
    · rename_i refused written write
      obtain ⟨reason, rfl⟩ := Prod.mk.inj h
      obtain ⟨fault, same, -⟩ := step_eq_error write
      exact .inl (writeFile_eq_error same ▸ grown)
    · rename_i written write
      obtain ⟨beside, rfl⟩ := writeFile_eq_ok_iff.1 (step_eq_ok write)
      split at h
      · rename_i refused moved move
        obtain ⟨reason, rfl⟩ := Prod.mk.inj h
        obtain ⟨fault, same, about⟩ := step_eq_error move
        obtain rfl := moveFile_eq_error same
        have present : (made.put (made.destinationOf (temporary target)) (.file content)).node?
            (made.destinationOf (temporary target)) = some (.file content) := by
          rw [FileTree.node?_put beside.ne_nil, if_pos rfl]
        rw [removeFile_eq_ok (locate_temporary beside) present]
        refine .inr ⟨⟨fault, Except.error.inj reason ▸ about⟩, made, grown, fun key => ?_⟩
        rw [← FileTree.destinationOf_congr grown.home]
        by_cases empty : key = []
        · simp [empty, Ne.symm beside.ne_nil]
        · rw [FileTree.node?_without _ empty, FileTree.node?_put beside.ne_nil]
          simp only [decide_eq_true_eq]
          split <;> rfl
      · simp at h

end ComponentBundle.Bundle
