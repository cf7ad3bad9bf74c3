import Mathlib.Data.List.DropRight
import ComponentBundle.Proofs.NamedPaths

/-!
The parent of a path. It is spelled as the start of the path, with all in between that stands for
nothing, and lacks just one of its parts, whatever dots and doubled slashes there are.
-/
namespace ComponentBundle.Files.FilePath
open ComponentBundle.Text

variable {path parent : FilePath} {pieces front : List Name}

inductive Led : List Name → List Part → Prop where
  | rooted (second : Name) (more : List Name) : Led ([] :: second :: more) [.root]
  | dotted (more : List Name) : Led (dot :: more) [.here]
  | unled {pieces : List Name} (bare : ∀ front, front <+: pieces → leadOf front = []) :
      Led pieces []

theorem led (pieces : List Name) : Led pieces (leadOf pieces) := by
  match pieces with
  | [] => exact .unled fun front start => by rw [List.prefix_nil.1 start, leadOf]
  | [[]] =>
    refine .unled fun front start => ?_
    rcases List.prefix_cons_iff.1 start with rfl | ⟨rest, rfl, behind⟩
    · rfl
    · rw [List.prefix_nil.1 behind]
      rfl
  | [] :: second :: more => exact .rooted second more
  | (c :: piece) :: more =>
    by_cases dotted : c :: piece = dot
    · rw [dotted]
      exact .dotted more
    · rw [leadOf, if_neg dotted]
      · refine .unled fun front start => ?_
        rcases List.prefix_cons_iff.1 start with rfl | ⟨rest, rfl, -⟩
        · rfl
        · rw [leadOf, if_neg dotted]
          simp
      · simp

theorem filterMap_trimPieces (pieces : List Name) :
    (trimPieces pieces).filterMap part? = pieces.filterMap part? := by
  let blank : Name → Bool := fun piece => (part? piece).isNone
  have rest : (pieces.rtakeWhile blank).filterMap part? = [] :=
    List.filterMap_eq_nil_iff.2 fun piece inside =>
      Option.isNone_iff_eq_none.1 (List.mem_rtakeWhile_imp (p := blank) inside)
  have whole : trimPieces pieces ++ pieces.rtakeWhile blank = pieces :=
    List.rdropWhile_append_rtakeWhile
  rw [← whole, List.filterMap_append, rest, List.append_nil, whole]

theorem trimPieces_start (pieces : List Name) : trimPieces pieces <+: pieces :=
  List.rdropWhile_prefix _ _

theorem trimPieces_dropLast (filled : trimPieces pieces ≠ []) :
    ∃ last, trimPieces (trimPieces pieces).dropLast <+: pieces ∧ last ≠ .root ∧
      pieces.filterMap part?
        = (trimPieces (trimPieces pieces).dropLast).filterMap part? ++ [last] := by
  obtain ⟨front, piece, ended⟩ := (List.eq_nil_or_concat' (trimPieces pieces)).resolve_left filled
  have stands : ¬ (part? ((trimPieces pieces).getLast filled)).isNone = true :=
    List.rdropWhile_last_not _ pieces filled
  simp only [ended, List.getLast_append_singleton] at stands
  obtain ⟨last, part⟩ := Option.ne_none_iff_exists'.1 (by simpa using stands)
  refine ⟨last, ?_, fun root => FileTree.part?_ne_root piece (root ▸ part), ?_⟩
  · exact (trimPieces_start _).trans ((List.dropLast_prefix _).trans (trimPieces_start _))
  · rw [filterMap_trimPieces, ← filterMap_trimPieces pieces, ended, List.dropLast_concat,
      List.filterMap_append, List.filterMap_cons_some part, List.filterMap_nil]

theorem parts_of_root_mem (h : .root ∈ path.parts) :
    path.isAbsolute = true ∧ ∃ behind, path.parts = .root :: behind ∧ .root ∉ behind := by
  have behind := root_notMem_pieces path.pieces
  rcases List.mem_append.1 h with lead | inside
  · have absolute : path.isAbsolute = true := by
      by_contra relative
      rw [leading, if_neg relative] at lead
      split at lead <;> simp at lead
    exact ⟨absolute, _, by rw [parts, leading, if_pos absolute]; rfl, behind⟩
  · exact absurd inside behind

theorem parts_of_parent? (h : path.parent? = some parent) :
    ∃ last, last ≠ .root ∧ path.parts = parent.parts ++ [last] := by
  have free : ∀ piece ∈ path.pieces, slashByte ∉ piece := fun piece => free_of_mem_splitOn
  have absolute : path.isAbsolute = decide (path.leading = [.root]) := by
    unfold leading
    split
    · simp [*]
    · split <;> simp [*]
  rw [parent?, absolute, leading_eq] at h
  rw [parts, leading_eq]
  generalize path.pieces = pieces at h free ⊢
  have shape := led pieces
  generalize leadOf pieces = lead at h shape ⊢
  cases shape with
  | rooted second more =>
    simp only [List.isEmpty_cons, Bool.not_false, if_true, List.take_succ_cons, List.take_zero,
      List.drop_succ_cons, List.drop_zero, decide_true, Bool.true_and, List.isEmpty_iff] at h
    split at h
    · simp at h
    · rename_i filled
      obtain ⟨last, start, other, behind⟩ := trimPieces_dropLast filled
      generalize trimPieces (trimPieces (second :: more)).dropLast = rest at h start behind
      refine ⟨last, other, ?_⟩
      have told : parent.parts = [.root] ++ rest.filterMap part? := by
        split at h
        · rename_i none_
          rw [← Option.some.inj h, none_]
          rfl
        · rename_i some_
          obtain ⟨next, others, rfl⟩ := List.exists_cons_of_ne_nil some_
          have inside := List.cons_subset_cons [] start.subset
          rw [← Option.some.inj h]
          exact parts_join_pieces (by simp) fun piece member => free piece (inside member)
      rw [told, List.filterMap_cons_none rfl, behind, List.append_assoc]
  | dotted more =>
    have blank : part? dot = none := by decide
    simp only [List.isEmpty_cons, Bool.not_false, if_true, List.take_succ_cons, List.take_zero,
      List.drop_succ_cons, List.drop_zero, List.cons.injEq, reduceCtorEq, false_and, decide_false,
      Bool.false_and, Bool.false_eq_true, if_false] at h
    rw [List.filterMap_cons_none blank]
    split at h
    · rename_i trimmed
      refine ⟨.here, by simp, ?_⟩
      rw [← Option.some.inj h, ← filterMap_trimPieces, trimmed]
      rfl
    · rename_i filled
      obtain ⟨last, start, other, behind⟩ := trimPieces_dropLast filled
      generalize trimPieces (trimPieces more).dropLast = rest at h start behind
      refine ⟨last, other, ?_⟩
      have told : parent.parts = [.here] ++ rest.filterMap part? := by
        have inside := List.cons_subset_cons dot start.subset
        rw [← Option.some.inj h]
        exact parts_join_pieces (by simp) fun piece member => free piece (inside member)
      rw [told, behind, List.append_assoc]
  | unled bare =>
    simp only [List.isEmpty_nil, Bool.not_true, Bool.false_eq_true, if_false, reduceCtorEq,
      decide_false, Bool.false_and, List.nil_append] at h
    split at h
    · contradiction
    · rename_i filled
      obtain ⟨last, start, other, behind⟩ := trimPieces_dropLast filled
      generalize trimPieces (trimPieces pieces).dropLast = rest at h start behind
      refine ⟨last, other, ?_⟩
      have told : parent.parts = rest.filterMap part? := by
        rw [← Option.some.inj h]
        by_cases empty : rest = []
        · rw [empty]
          rfl
        · rw [parts_join_pieces empty fun piece member => free piece (start.subset member),
            bare rest start, List.nil_append]
      rw [told, behind, List.nil_append]

end ComponentBundle.Files.FilePath
