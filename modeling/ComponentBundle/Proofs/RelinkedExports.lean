import ComponentBundle.Proofs.KeptEdits
import ComponentBundle.Proofs.RenderedExports
import ComponentBundle.Proofs.Replacements

/-!
Trimming a text and redirecting the names in it make no line that `export` leads.
-/
namespace ComponentBundle.Bundle
open ComponentBundle.Text ComponentBundle.Source ComponentBundle.Module ComponentBundle.Project

theorem startsExport_capital {c : Char} (small : isSmall c.toNat = false) (t : Text) :
    startsExport (c :: t) = false := by
  rw [Bool.eq_false_iff, ne_eq, startsExport_iff]
  rintro ⟨rest, split, -⟩
  rw [(List.cons.inj split).1] at small
  contradiction

theorem continuesName_of_identifierChar {c : Char} (known : isIdentifierChar c) :
    continuesName c := by
  rw [continuesName, isWord_of_ascii c (ascii_of_identifierChar known)]
  exact known

theorem startsExport_of_solid {a behind : Text} {c : Char}
    (known : isIdentifierChar c) (small : isSmall c.toNat = false) (t : Text)
    (starts : startsExport (a ++ c :: t)) : startsExport (a ++ behind) := by
  have continues := continuesName_of_identifierChar known
  obtain ⟨rest, split, ends⟩ := startsExport_iff.1 starts
  rcases List.append_eq_append_iff.1 split with ⟨extra, word, next⟩ | ⟨extra, inside, rfl⟩
  · cases extra with
    | nil =>
      rw [List.nil_append] at next
      rw [← next, List.head?_cons, Option.any_some, continues] at ends
      contradiction
    | cons d extra =>
      obtain ⟨rfl, -⟩ := List.cons.inj next
      have letters : ∀ d ∈ exportWord, isSmall d.toNat := List.all_eq_true.1 (by decide)
      rw [letters c (by rw [word]; simp)] at small
      contradiction
  · apply startsExport_iff.2
    refine ⟨extra ++ behind, by rw [inside, List.append_assoc], ?_⟩
    cases extra with
    | nil =>
      rw [List.nil_append, List.head?_cons, Option.any_some, continues] at ends
      contradiction
    | cons d extra => exact ends

theorem exportFree_behind_line {line rest : Text} (one : '\n' ∉ line)
    (free : ExportFree false rest) : ExportFree false (line ++ rest) := by
  intro before behind split starts
  rcases List.append_eq_append_iff.1 split with ⟨extra, rfl, later⟩ | ⟨extra, inside, -⟩
  · rw [freshAfter_append, freshAfter_line one] at starts
    exact free extra behind later starts
  · rw [inside, List.mem_append, not_or] at one
    rw [freshAfter_line one.1] at starts
    contradiction

theorem exportFree_insert {fresh : Bool} {piece behind put rest : Text}
    (free : ExportFree fresh (piece ++ behind)) (solid : Solid put) (later : ExportFree false rest) :
    ExportFree fresh (piece ++ (put ++ rest)) := by
  obtain ⟨c, more, rfl, known, small⟩ := solid.head
  have line : '\n' ∉ more := fun inside => solid.line (List.mem_cons_of_mem _ inside)
  have visible : isBlank c = false := by
    rw [Bool.eq_false_iff]
    intro blank
    have stops := not_continuesName_of_blank blank
    rw [continuesName_of_identifierChar known] at stops
    contradiction
  intro before ending split starts
  rcases List.append_eq_append_iff.1 split with ⟨extra, rfl, next⟩ | ⟨extra, inside, rfl⟩
  · cases extra with
    | nil =>
      rw [List.nil_append] at next
      rw [← next]
      exact startsExport_capital small _
    | cons d extra =>
      obtain ⟨rfl, same⟩ := List.cons.inj next
      have other : c ≠ '\n' := by
        rintro rfl
        exact absurd known (by decide)
      rw [freshAfter_append, freshAfter_cons, visible, decide_eq_false other, Bool.and_false] at starts
      exact exportFree_behind_line line later extra ending same starts
  · rw [Bool.eq_false_iff]
    intro found
    have old : startsExport (extra ++ behind) := startsExport_of_solid known small _ found
    rw [free before (extra ++ behind) (by rw [inside, List.append_assoc]) starts] at old
    contradiction

theorem exportFree_applyFrom {t : Text} {edits : List Edit} (solid : ∀ edit ∈ edits, Solid edit.text)
    (all : ∀ n, ExportFree false (dropWidth n t)) {fresh : Bool} {cursor : Nat}
    (free : ExportFree fresh (dropWidth cursor t)) : ExportFree fresh (applyFrom t cursor edits) := by
  induction edits generalizing fresh cursor with
  | nil => exact free
  | cons edit more ih =>
    obtain ⟨first, others⟩ := List.forall_mem_cons.1 solid
    rw [applyFrom]
    rw [← takeWidth_append_dropWidth (edit.start - cursor) (dropWidth cursor t)] at free
    exact exportFree_insert free first (ih others (all edit.stop))

theorem exportFree_applyEdits {fresh : Bool} {t : Text} {edits : List Edit}
    (free : ExportFree fresh t) (solid : ∀ edit ∈ edits, Solid edit.text) :
    ExportFree fresh (applyEdits t edits) := by
  apply exportFree_applyFrom (fun edit member => solid edit (mem_of_mem_kept member))
  · intro n
    rw [← takeWidth_append_dropWidth n t] at free
    have behind := free.behind
    cases flag : freshAfter fresh (takeWidth n t) with
    | false => rwa [flag] at behind
    | true => rw [flag] at behind; exact behind.mono
  · rwa [dropWidth_zero]

theorem exportFree_relink {fresh : Bool} {t : Text} {others : List Identified} {targets : Table}
    (free : ExportFree fresh t) (capital : ∀ other ∈ others, Capital other.2)
    (solid : ∀ entry ∈ targets, Solid entry.2) : ExportFree fresh (relink others targets t) := by
  apply exportFree_applyEdits free
  intro edit member
  rcases List.mem_append.1 member with ofSpecifier | ofName
  · obtain ⟨other, inside, member⟩ := List.mem_flatMap.1 ofSpecifier
    obtain ⟨specifier, -, member⟩ := List.mem_flatMap.1 member
    obtain ⟨place, -, rfl⟩ := List.mem_map.1 member
    exact (capital other inside).solid
  · obtain ⟨entry, inside, member⟩ := List.mem_flatMap.1 ofName
    obtain ⟨place, -, rfl⟩ := List.mem_map.1 member
    exact solid entry (List.mem_filter.1 inside).1

theorem exportFree_trimStart {t : Text} (free : ExportFree true t) :
    ExportFree true (trimStart t) := by
  have whole : t.takeWhile isBlank ++ trimStart t = t := List.takeWhile_append_dropWhile
  rw [← whole] at free
  have behind := free.behind
  rwa [freshAfter_blank fun c inside => List.mem_takeWhile_imp inside] at behind

theorem exportFree_of_append {fresh : Bool} {a b : Text} (free : ExportFree fresh (a ++ b))
    (apart : b.head?.any continuesName = false) : ExportFree fresh a := by
  have ends : NamesApart a b := Or.inr apart
  have words := exportWordsFrom_append ends fresh 0
  rw [exportWordsFrom_eq_nil_iff.2 free] at words
  exact exportWordsFrom_eq_nil_iff.1 (List.append_eq_nil_iff.1 words.symm).1

theorem exportFree_trimEnd {fresh : Bool} {t : Text} (free : ExportFree fresh t) :
    ExportFree fresh (trimEnd t) := by
  have whole : trimEnd t ++ (t.reverse.takeWhile isBlank).reverse = t := by
    rw [trimEnd, ← List.reverse_append, List.takeWhile_append_dropWhile, List.reverse_reverse]
  rw [← whole] at free
  apply exportFree_of_append free
  cases blank : (t.reverse.takeWhile isBlank).reverse with
  | nil => rfl
  | cons c more =>
    have inside : c ∈ t.reverse.takeWhile isBlank := by
      rw [← List.mem_reverse, blank]
      exact List.mem_cons_self
    exact not_continuesName_of_blank (List.mem_takeWhile_imp inside)

theorem exportFree_trim {t : Text} (free : ExportFree true t) : ExportFree true (trim t) :=
  exportFree_trimEnd (exportFree_trimStart free)

end ComponentBundle.Bundle
