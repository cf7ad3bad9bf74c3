import ComponentBundle.Proofs.SharedScope

/-!
Relinking replaces words that stand for other modules. It leaves a text alone in which no such
word stands.
-/
namespace ComponentBundle.Text

/-- A word stands in a text where no character next to it belongs to it. -/
def StandsAlone (before after : Char → Bool) (word t : Text) : Prop :=
  word ≠ [] ∧ ∃ front rest, t = front ++ (word ++ rest) ∧
    front.getLast?.any before = false ∧ rest.head?.any after = false

theorem StandsAlone.inside {before after : Char → Bool} {word t : Text}
    (h : StandsAlone before after word t) : word <:+: t := by
  obtain ⟨-, front, rest, rfl, -, -⟩ := h
  exact ⟨front, rest, List.append_assoc ..⟩

theorem split_of_mem_occurrencesFrom {needle t : Text} {previous : Option Char} {start : Nat}
    {place : Occurrence} (h : place ∈ occurrencesFrom needle previous start t) :
    needle ≠ [] ∧ ∃ front rest, t = front ++ (needle ++ rest) ∧
      place.start = start + width front ∧ place.previous = front.getLast?.or previous ∧
      place.next = rest.head? := by
  fun_induction occurrencesFrom needle previous start t with
  | case1 => contradiction
  | case2 => contradiction
  | case3 previous start c t filled rest found ih =>
    have split := after?_eq_some_iff.1 found
    have filled : needle ≠ [] := by simpa using filled
    refine ⟨filled, ?_⟩
    rcases List.mem_cons.1 h with rfl | later
    · exact ⟨[], rest, split, rfl, rfl, rfl⟩
    · obtain ⟨-, front, behind, rfl, place_, previous_, next_⟩ := ih later
      refine ⟨needle ++ front, behind, by rw [split, List.append_assoc], ?_, ?_, next_⟩
      · rw [place_, width_append, Nat.add_assoc]
      · rw [previous_, List.getLast?_append, Option.or_assoc, List.getLast?_eq_some_getLast filled,
          Option.some_or]
  | case4 previous start c t filled found ih =>
    obtain ⟨filled, front, behind, rfl, place_, previous_, next_⟩ := ih h
    refine ⟨filled, c :: front, behind, rfl, ?_, ?_, next_⟩
    · rw [place_, width_cons, Nat.add_assoc]
    · rw [previous_, List.getLast?_cons]
      cases front.getLast? <;> rfl

theorem split_of_mem_occurrences {needle t : Text} {place : Occurrence}
    (h : place ∈ occurrences needle t) : needle ≠ [] ∧ ∃ front rest, t = front ++ (needle ++ rest) ∧
      place.start = width front ∧ place.previous = front.getLast? ∧ place.next = rest.head? := by
  obtain ⟨filled, front, rest, split, place_, previous_, next_⟩ := split_of_mem_occurrencesFrom h
  rw [Nat.zero_add] at place_
  rw [Option.or_none] at previous_
  exact ⟨filled, front, rest, split, place_, previous_, next_⟩

end ComponentBundle.Text

namespace ComponentBundle.Bundle
open ComponentBundle.Text ComponentBundle.Source ComponentBundle.Module ComponentBundle.Project

/-- A character that makes a name behind it a part of something longer. -/
def joinsName (c : Char) : Bool := isNameChar c || c = '.' || c = '@'

/-- No word of a text refers to another module, be it by a specifier or by a name. -/
structure SelfContained (others : List Identified) (targets : Table) (t : Text) : Prop where
  specifiers : ∀ other ∈ others, ∀ specifier ∈ other.1.specifiers,
    ¬ StandsAlone isSpecifierChar isSpecifierChar specifier t
  names : ∀ entry ∈ targets, entry.1 ≠ entry.2 → ¬ StandsAlone joinsName isNameChar entry.1 t

theorem SelfContained.of_absent {others : List Identified} {targets : Table} {t : Text}
    (specifiers : ∀ other ∈ others, ∀ specifier ∈ other.1.specifiers, ¬ specifier <:+: t)
    (names : ∀ entry ∈ targets, entry.1 ≠ entry.2 → ¬ entry.1 <:+: t) :
    SelfContained others targets t where
  specifiers := fun other inside specifier known alone =>
    specifiers other inside specifier known alone.inside
  names := fun entry inside changed alone => names entry inside changed alone.inside

theorem applyEdits_nil (t : Text) : applyEdits t [] = t := by
  rw [applyEdits, kept, List.mergeSort_nil, keptFrom, applyFrom, dropWidth_zero]

theorem specifierPlaces_eq_nil {spans : List Span} {specifier t : Text}
    (none_ : ¬ StandsAlone isSpecifierChar isSpecifierChar specifier t) :
    specifierPlaces spans specifier t = [] := by
  apply List.map_eq_nil_iff.2
  apply List.filter_eq_nil_iff.2
  intro place found kept
  obtain ⟨filled, front, rest, split, -, previous, next⟩ := split_of_mem_occurrences found
  simp only [Bool.and_eq_true, Bool.not_eq_true', previous, next] at kept
  exact none_ ⟨filled, front, rest, split, kept.1.1, kept.1.2⟩

theorem nameEdits_eq_nil {spans : List Span} {t name target : Text}
    (none_ : ¬ StandsAlone joinsName isNameChar name t) : nameEdits spans t name target = [] := by
  apply List.map_eq_nil_iff.2
  apply List.filter_eq_nil_iff.2
  intro place found kept
  obtain ⟨filled, front, rest, split, -, previous, next⟩ := split_of_mem_occurrences found
  simp only [Bool.and_eq_true, Bool.not_eq_true', previous, next] at kept
  exact none_ ⟨filled, front, rest, split, kept.1.1, kept.1.2⟩

theorem SelfContained.relink {others : List Identified} {targets : Table} {t : Text}
    (h : SelfContained others targets t) : relink others targets t = t := by
  have specifiers : others.flatMap (specifierEdits (spansIn t) t) = [] := by
    apply List.flatMap_eq_nil_iff.2
    intro other inside
    apply List.flatMap_eq_nil_iff.2
    intro specifier known
    rw [specifierPlaces_eq_nil (h.specifiers other inside specifier known), List.map_nil]
  rw [Bundle.relink, specifiers, List.nil_append, List.flatMap_eq_nil_iff.2]
  · exact applyEdits_nil t
  · intro entry changed
    obtain ⟨inside, apart⟩ := List.mem_filter.1 changed
    exact nameEdits_eq_nil (h.names entry inside (of_decide_eq_true apart))

end ComponentBundle.Bundle
