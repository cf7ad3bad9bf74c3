import Mathlib.Data.List.TakeWhile
import ComponentBundle.Text.Blank

/-!
What trimming takes away, and what a maximal run of characters does not depend on.
-/
namespace ComponentBundle.Text

theorem takeWhile_append_of_stop {p : Char → Bool} {t : Text} (stop : ∃ c ∈ t, p c = false)
    (more : Text) : (t ++ more).takeWhile p = t.takeWhile p := by
  obtain ⟨c, member, stops⟩ := stop
  induction t with
  | nil => contradiction
  | cons d t ih =>
    cases passes : p d with
    | false => simp [passes]
    | true =>
      rcases List.mem_cons.1 member with rfl | later
      · rw [passes] at stops
        contradiction
      · simp [passes, ih later]

theorem dropWhile_append_of_stop {p : Char → Bool} {t : Text} (stop : ∃ c ∈ t, p c = false)
    (more : Text) : (t ++ more).dropWhile p = t.dropWhile p ++ more := by
  rw [List.dropWhile_append, if_neg]
  obtain ⟨c, member, stops⟩ := stop
  rw [List.isEmpty_iff, List.dropWhile_eq_nil_iff]
  intro all
  rw [all c member] at stops
  contradiction

theorem stop_of_dropWhile_cons {α : Type} {p : α → Bool} {l rest : List α} {c : α}
    (h : l.dropWhile p = c :: rest) : p c = false := by
  have first := List.head?_dropWhile_not p l
  rwa [h] at first

theorem trim_append_blank {lead tail : Text} (small : ∀ c ∈ lead, isBlank c)
    (smallTail : ∀ c ∈ tail, isBlank c) (t : Text) : trim (lead ++ (t ++ tail)) = trim t := by
  have start : ∀ u : Text, trimStart (lead ++ u) = trimStart u := fun u =>
    List.dropWhile_append_of_pos small
  have stop : ∀ u : Text, trimEnd (u ++ tail) = trimEnd u := fun u => by
    rw [trimEnd, trimEnd, List.reverse_append,
      List.dropWhile_append_of_pos (fun c member => smallTail c (List.mem_reverse.1 member))]
  rw [trim, trim, start]
  by_cases blank : ∀ c ∈ t, isBlank c
  · have none_ : trimStart t = [] := List.dropWhile_eq_nil_iff.2 blank
    have all : trimStart (t ++ tail) = [] := by
      rw [trimStart, List.dropWhile_append_of_pos blank]
      exact List.dropWhile_eq_nil_iff.2 smallTail
    rw [none_, all]
  · have kept : trimStart (t ++ tail) = trimStart t ++ tail := by
      rw [trimStart, List.dropWhile_append, if_neg]
      · rfl
      · rwa [List.isEmpty_iff, List.dropWhile_eq_nil_iff]
    rw [kept, stop]

theorem trim_blank_append {lead : Text} (small : ∀ c ∈ lead, isBlank c) (t : Text) :
    trim (lead ++ t) = trim t := by
  have whole := trim_append_blank small (List.forall_mem_nil _) t
  rwa [List.append_nil] at whole

theorem trim_append {t tail : Text} (starts : t.head?.any fun c => !isBlank c)
    (ends : t.getLast?.any fun c => !isBlank c) (small : ∀ c ∈ tail, isBlank c) :
    trim (t ++ tail) = t := by
  have first : trimStart t = t := by
    cases t with
    | nil => rfl
    | cons c t => exact List.dropWhile_cons_of_neg (by simpa using starts)
  have last : trimEnd t = t := by
    rw [← List.head?_reverse] at ends
    rw [trimEnd]
    cases backwards : t.reverse with
    | nil => simpa using backwards.symm
    | cons c more =>
      rw [backwards] at ends
      rw [List.dropWhile_cons_of_neg (by simpa using ends), ← backwards, List.reverse_reverse]
  have whole : trim ([] ++ (t ++ tail)) = trim t := trim_append_blank (by simp) small t
  rw [List.nil_append] at whole
  rw [whole, trim, first, last]

end ComponentBundle.Text
