import ComponentBundle.Proofs.Splitting
import ComponentBundle.Proofs.Trimming
import ComponentBundle.Bundle.Compact

/-!
What compacting does to white space. A text is read as its visible characters, each with a
mark that tells whether white space stands before it. Blank lines, line ends and the
length of a run are no part of that reading, so only `densed` decides where a space stays.
-/
namespace ComponentBundle.Bundle
open ComponentBundle.Text

def marks (gap : Bool) : Text → List (Bool × Char)
  | [] => []
  | c :: t => if isBlank c then marks true t else (gap, c) :: marks false t

/-- Whether a space stays between two characters: not next to a tight one, unless the two
would fuse. -/
def parts (previous next : Option Char) : Bool :=
  !((previous.any isTight || next.any isTight) && !(previous.any isFusing && previous = next))

def densed (previous : Option Char) : List (Bool × Char) → Text
  | [] => []
  | (gap, c) :: more =>
    (if gap && parts previous (some c) then [' '] else []) ++ c :: densed (some c) more

theorem marks_blank {c : Char} (blank : isBlank c) (gap : Bool) (t : Text) :
    marks gap (c :: t) = marks true t := by
  simp [marks, blank]

theorem marks_visible {c : Char} (visible : isBlank c = false) (gap : Bool) (t : Text) :
    marks gap (c :: t) = (gap, c) :: marks false t := by
  simp [marks, visible]

theorem marks_run {run : Text} (blank : ∀ c ∈ run, isBlank c) (filled : run ≠ []) (gap : Bool)
    (t : Text) : marks gap (run ++ t) = marks true t := by
  induction run generalizing gap with
  | nil => exact absurd rfl filled
  | cons c run ih =>
    obtain ⟨first, others⟩ := List.forall_mem_cons.1 blank
    rw [List.cons_append, marks_blank first]
    cases run with
    | nil => rfl
    | cons d run => exact ih others (List.cons_ne_nil d run) true

theorem marks_allBlank {t : Text} (blank : allBlank t) (gap : Bool) : marks gap t = [] := by
  induction t generalizing gap with
  | nil => rfl
  | cons c t ih =>
    simp only [allBlank, List.all_cons, Bool.and_eq_true] at blank
    rw [marks_blank blank.1]
    exact ih blank.2 true

theorem marks_append_blank {c : Char} (blank : isBlank c) (gap : Bool) (a b : Text) :
    marks gap (a ++ c :: b) = marks gap a ++ marks true b := by
  induction a generalizing gap with
  | nil => simp [marks, blank]
  | cons d a ih => cases visible : isBlank d <;> simp [marks, visible, ih]

theorem marks_join {mark : Char} (blank : isBlank mark) (pieces : List Text) :
    marks true (join [mark] pieces) = pieces.flatMap (marks true) := by
  induction pieces with
  | nil => rfl
  | cons piece more ih =>
    cases more with
    | nil => simp [join]
    | cons next more =>
      have split : join [mark] (piece :: next :: more) = piece ++ mark :: join [mark] (next :: more) := by
        simp [join, List.intercalate, List.intersperse]
      rw [split, marks_append_blank blank, ih]
      rfl

theorem marks_withoutReturn (line : Text) :
    marks true ((before? ['\r'] line).getD line) = marks true line := by
  cases ends : before? ['\r'] line with
  | none => rfl
  | some rest =>
    rw [before?_eq_some_iff.1 ends, marks_append_blank (by decide)]
    simp [marks]

theorem marks_lines (t : Text) : (lines t).flatMap (marks true) = marks true t := by
  have pieces := marks_join (show isBlank '\n' by decide) (splitOn '\n' t)
  rw [join_splitOn] at pieces
  obtain ⟨before, last, split⟩ : ∃ before last, splitOn '\n' t = before ++ [last] :=
    ⟨_, _, (List.dropLast_concat_getLast (splitWhere_ne_nil _ t)).symm⟩
  have ended : (if last.isEmpty then [] else [last]).flatMap (marks true) = marks true last := by
    cases last <;> simp [marks]
  rw [pieces, lines, split]
  simp only [List.getLast?_concat, Option.getD_some, List.dropLast_concat, List.flatMap_append,
    List.flatMap_map, marks_withoutReturn, ended, List.flatMap_singleton]

theorem marks_withoutBlankLines (t : Text) : marks true (withoutBlankLines t) = marks true t := by
  rw [withoutBlankLines, marks_join (by decide), ← marks_lines t]
  induction lines t with
  | nil => rfl
  | cons line more ih =>
    cases blank : allBlank line with
    | false => simp [blank, ih]
    | true => simp [blank, ih, marks_allBlank blank]

theorem trimStart_eq (t : Text) : trimStart t = [] ∨
    ∃ c rest, trimStart t = c :: rest ∧ isBlank c = false := by
  cases trimmed : trimStart t with
  | nil => exact Or.inl rfl
  | cons c rest => exact Or.inr ⟨c, rest, rfl, stop_of_dropWhile_cons trimmed⟩

theorem marks_trimStart (t : Text) : marks true (trimStart t) = marks true t := by
  induction t with
  | nil => rfl
  | cons c t ih =>
    cases visible : isBlank c with
    | false => simp [trimStart, visible]
    | true =>
      rw [marks_blank visible, ← ih]
      simp [trimStart, visible]

theorem marks_trimStart_congr {a b : Text} (same : marks true a = marks true b) :
    marks false (trimStart a) = marks false (trimStart b) := by
  rw [← marks_trimStart a, ← marks_trimStart b] at same
  rcases trimStart_eq a with none_ | ⟨c, s, eqA, visibleA⟩ <;>
    rcases trimStart_eq b with noneB | ⟨d, u, eqB, visibleB⟩
  · rw [none_, noneB]
  · simp [none_, eqB, marks, visibleB] at same
  · simp [noneB, eqA, marks, visibleA] at same
  · simp_all [marks]

theorem collapseBlanks_visible {c : Char} (visible : isBlank c = false) (t : Text) :
    collapseBlanks (c :: t) = c :: collapseBlanks t := by
  cases t <;> simp [collapseBlanks, visible]

theorem collapseBlanks_blank {c d : Char} (first : isBlank c) (second : isBlank d) (t : Text) :
    collapseBlanks (c :: d :: t) = collapseBlanks (d :: t) := by
  rw [collapseBlanks]
  simp [first, second]

theorem collapseBlanks_last {c d : Char} (first : isBlank c) (second : isBlank d = false)
    (t : Text) : collapseBlanks (c :: d :: t) = ' ' :: d :: collapseBlanks t := by
  rw [collapseBlanks, ← collapseBlanks_visible second]
  simp [first, second]

theorem tightenAfter_other {c : Char} (other : c ≠ ' ') (previous : Option Char) (t : Text) :
    tightenAfter previous (c :: t) = c :: tightenAfter (some c) t := by
  simp [tightenAfter, other]

theorem tightenAfter_visible {c : Char} (visible : isBlank c = false) (previous : Option Char)
    (t : Text) : tightenAfter previous (c :: t) = c :: tightenAfter (some c) t := by
  apply tightenAfter_other
  rintro rfl
  simp [isBlank] at visible

theorem tightenAfter_space (previous : Option Char) (t : Text) : tightenAfter previous (' ' :: t)
    = if parts previous t.head? then ' ' :: tightenAfter (some ' ') t else tightenAfter previous t := by
  rw [tightenAfter]
  grind [parts]

theorem tightenAfter_gap {c : Char} (visible : isBlank c = false) (previous : Option Char)
    (t : Text) : tightenAfter previous (' ' :: c :: t)
      = (if parts previous (some c) then [' '] else []) ++ c :: tightenAfter (some c) t := by
  rw [tightenAfter_space, List.head?_cons, tightenAfter_visible visible,
    tightenAfter_visible visible]
  cases parts previous (some c) <;> rfl

theorem tightenAfter_collapseBlanks (previous : Option Char) (t : Text) :
    ∃ tail, (tail = [] ∨ tail = [' ']) ∧
      tightenAfter previous (collapseBlanks t) = densed previous (marks false t) ++ tail := by
  induction t generalizing previous with
  | nil => exact ⟨[], Or.inl rfl, rfl⟩
  | cons c t ih =>
    cases first : isBlank c with
    | false =>
      obtain ⟨tail, small, same⟩ := ih (some c)
      refine ⟨tail, small, ?_⟩
      rw [collapseBlanks_visible first, tightenAfter_visible first, same, marks_visible first]
      rfl
    | true =>
      cases t with
      | nil =>
        refine ⟨tightenAfter previous [' '], ?_, ?_⟩
        · simp only [tightenAfter]
          split <;> simp
        · simp [collapseBlanks, first, marks, densed]
      | cons d t =>
        obtain ⟨tail, small, same⟩ := ih previous
        refine ⟨tail, small, ?_⟩
        rw [marks_blank first]
        cases second : isBlank d with
        | true => rw [collapseBlanks_blank first second, same, marks_blank second, marks_blank second]
        | false =>
          rw [collapseBlanks_visible second, tightenAfter_visible second, marks_visible second] at same
          rw [collapseBlanks_last first second, tightenAfter_gap second, marks_visible second]
          simp only [densed, Bool.false_and, Bool.false_eq_true, if_false, List.nil_append,
            List.cons_append, List.cons.injEq, true_and] at same
          simp [densed, same]

theorem tighten_withoutBlankLines (t : Text) :
    ∃ lead tail, (lead = [] ∨ lead = [' ']) ∧ (tail = [] ∨ tail = [' ']) ∧
      tighten (collapseBlanks (withoutBlankLines t))
        = lead ++ (densed none (marks false (trimStart t)) ++ tail) := by
  obtain ⟨tail, small, same⟩ := tightenAfter_collapseBlanks none (withoutBlankLines t)
  rw [tighten, same, marks_trimStart_congr (marks_withoutBlankLines t).symm]
  generalize withoutBlankLines t = dense
  rcases trimStart_eq dense with none_ | ⟨c, rest, trimmed, visible⟩
  · have bare := marks_trimStart dense
    refine ⟨[], tail, Or.inl rfl, small, ?_⟩
    cases dense with
    | nil => rfl
    | cons c dense =>
      cases first : isBlank c with
      | false => simp [trimStart, first] at none_
      | true =>
        rw [none_, marks_blank first] at bare
        rw [marks_blank first, none_, ← bare]
        rfl
  · have bare := marks_trimStart dense
    rw [trimmed, marks_visible visible]
    rw [trimmed, marks_visible visible] at bare
    cases dense with
    | nil => simp [trimStart] at trimmed
    | cons d dense =>
      cases first : isBlank d with
      | false =>
        simp only [trimStart, List.dropWhile, first, List.cons.injEq] at trimmed
        obtain ⟨rfl, rfl⟩ := trimmed
        exact ⟨[], tail, Or.inl rfl, small, by rw [marks_visible visible]; rfl⟩
      | true =>
        rw [marks_blank first] at bare ⊢
        rw [← bare]
        refine ⟨if parts none (some c) then [' '] else [], tail, ?_, small, ?_⟩
        · split <;> simp
        · simp [densed]

end ComponentBundle.Bundle
