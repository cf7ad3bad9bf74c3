import Mathlib.Data.List.TakeDrop
import ComponentBundle.Proofs.Trimming
import ComponentBundle.Text.Search

/-!
Cutting a text at a mark, and putting it together again.
-/
namespace ComponentBundle.Text

section
variable {α : Type}

theorem splitWhere_eq_splitOnP (p : α → Bool) (t : List α) : splitWhere p t = t.splitOnP p := by
  induction t with
  | nil => rw [splitWhere, List.splitOnP_nil]
  | cons c t ih =>
    rw [splitWhere, ih, List.splitOnP_cons_eq_if_modifyHead]
    split
    · rfl
    · cases split : List.splitOnP p t with
      | nil => exact absurd split (List.splitOnP_ne_nil p t)
      | cons piece more => rfl

theorem splitOn_eq [DecidableEq α] (mark : α) (t : List α) :
    splitOn mark t = List.splitOn mark t := by
  rw [splitOn, splitWhere_eq_splitOnP, List.splitOn_eq_splitOnP]
  rfl

theorem splitWhere_ne_nil (p : α → Bool) (t : List α) : splitWhere p t ≠ [] := by
  rw [splitWhere_eq_splitOnP]
  exact List.splitOnP_ne_nil p t

theorem intercalate_splitOn [DecidableEq α] (mark : α) (t : List α) :
    [mark].intercalate (splitOn mark t) = t := by
  rw [splitOn_eq, List.intercalate_splitOn]

theorem intercalate_cons_cons (mark : α) (piece next : List α) (more : List (List α)) :
    [mark].intercalate (piece :: next :: more)
      = piece ++ mark :: [mark].intercalate (next :: more) := by
  simp [List.intercalate]

theorem splitOn_append_cons [DecidableEq α] (mark : α) (a b : List α) :
    splitOn mark (a ++ mark :: b) = splitOn mark a ++ splitOn mark b := by
  simp only [splitOn_eq, List.splitOn_append_cons_self]

theorem splitOn_intercalate [DecidableEq α] {mark : α} {pieces : List (List α)}
    (filled : pieces ≠ []) (free : ∀ piece ∈ pieces, mark ∉ piece) :
    splitOn mark ([mark].intercalate pieces) = pieces := by
  rw [splitOn_eq, List.splitOn_intercalate mark free filled]

theorem free_of_mem_splitOn [DecidableEq α] {mark : α} {t piece : List α}
    (h : piece ∈ splitOn mark t) : mark ∉ piece := by
  unfold splitOn at h
  induction t generalizing piece with
  | nil =>
    obtain rfl : piece = [] := by simpa [splitWhere] using h
    simp
  | cons c t ih =>
    obtain ⟨first, more, split⟩ := List.exists_cons_of_ne_nil (splitWhere_ne_nil (· = mark) t)
    rw [split] at ih
    rw [splitWhere, split] at h
    by_cases cut : c = mark
    · simp only [cut, decide_true, if_true, List.mem_cons] at h
      rcases h with rfl | inside
      · simp
      · exact ih (List.mem_cons.2 inside)
    · simp only [cut, decide_false, Bool.false_eq_true, if_false, List.mem_cons] at h
      rcases h with rfl | inside
      · have rest := ih List.mem_cons_self
        simp [Ne.symm cut, rest]
      · exact ih (List.mem_cons_of_mem _ inside)

theorem splitLast?_append [DecidableEq α] {mark : α} {b : List α} (free : mark ∉ b)
    (a : List α) :
    splitLast? mark (a ++ mark :: b) = some (a, b) := by
  have other : ∀ c ∈ b.reverse, decide (c ≠ mark) = true := by
    intro c inside
    rw [List.mem_reverse] at inside
    exact decide_eq_true fun same => free (same ▸ inside)
  have backwards : (a ++ mark :: b).reverse = b.reverse ++ mark :: a.reverse := by simp
  rw [splitLast?, backwards, List.span_eq_takeWhile_dropWhile,
    List.takeWhile_append_of_pos other, List.dropWhile_append_of_pos other]
  simp

theorem splitLast?_eq_some_iff [DecidableEq α] {mark : α} {t before last : List α} :
    splitLast? mark t = some (before, last) ↔ t = before ++ mark :: last ∧ mark ∉ last := by
  constructor
  · intro h
    unfold splitLast? at h
    rw [List.span_eq_takeWhile_dropWhile] at h
    split at h
    · contradiction
    · rename_i behind stop front split
      obtain ⟨taken, rest⟩ := Prod.mk.inj split
      obtain ⟨rfl, rfl⟩ := Prod.mk.inj (Option.some.inj h)
      obtain rfl : stop = mark := by simpa using stop_of_dropWhile_cons rest
      have whole :=
        List.takeWhile_append_dropWhile (p := fun c => decide (c ≠ stop)) (l := t.reverse)
      rw [taken, rest] at whole
      refine ⟨by simpa using (congrArg List.reverse whole).symm, fun inside => ?_⟩
      rw [← taken, List.mem_reverse] at inside
      simpa using List.mem_takeWhile_imp inside
  · rintro ⟨rfl, free⟩
    exact splitLast?_append free before

end

theorem join_splitOn (mark : Char) (t : Text) : join [mark] (splitOn mark t) = t :=
  intercalate_splitOn mark t

theorem splitOn_join {mark : Char} {pieces : List Text} (filled : pieces ≠ [])
    (free : ∀ piece ∈ pieces, mark ∉ piece) : splitOn mark (join [mark] pieces) = pieces :=
  splitOn_intercalate filled free

theorem join_concat (mark : Text) (lead : List Text) :
    ∃ front, ∀ last, join mark (lead ++ [last]) = front ++ last := by
  induction lead with
  | nil => exact ⟨[], fun last => by simp [join]⟩
  | cons first more ih =>
    obtain ⟨front, ends⟩ := ih
    refine ⟨first ++ (mark ++ front), fun last => ?_⟩
    have next : join mark (first :: (more ++ [last]))
        = first ++ (mark ++ join mark (more ++ [last])) := by
      cases more <;> simp [join, List.intercalate, List.intersperse]
    rw [List.cons_append, next, ends]
    simp

theorem splitFirst?_append {mark : Char} {needle a : Text} (free : mark ∉ a) (t : Text) :
    splitFirst? (mark :: needle) (a ++ t)
      = (splitFirst? (mark :: needle) t).map fun (before, rest) => (a ++ before, rest) := by
  induction a with
  | nil => simp
  | cons c a ih =>
    rw [List.mem_cons, not_or] at free
    have none_ : after? (mark :: needle) (c :: (a ++ t)) = none := by rw [after?, if_neg free.1]
    rw [List.cons_append, splitFirst?, none_, ih free.2, Option.map_map]
    rfl

end ComponentBundle.Text
