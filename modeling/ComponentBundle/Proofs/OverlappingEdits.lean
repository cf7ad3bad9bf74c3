import ComponentBundle.Proofs.BytePlaces
import ComponentBundle.Proofs.KeptEdits

/-!
Edits that overlap. Each edit that is dropped gives way to one that counts. Those that count put
their texts in place of their ranges and leave every other byte as it was. The order in which edits
are given matters only if two of them put different texts in place of one range.
-/
namespace ComponentBundle.Bundle
open ComponentBundle.Text ComponentBundle.Source

/-- An edit that replaces a part of a text, which starts and stops between characters. -/
structure Edit.StandsIn (edit : Edit) (t : Text) : Prop where
  filled : edit.start < edit.stop
  opened : Boundary t edit.start
  closed : Boundary t edit.stop

instance (edit : Edit) (t : Text) : Decidable (edit.StandsIn t) :=
  decidable_of_iff (edit.start < edit.stop ∧ Boundary t edit.start ∧ Boundary t edit.stop)
    ⟨fun ⟨filled, opened, closed⟩ => ⟨filled, opened, closed⟩,
      fun ⟨filled, opened, closed⟩ => ⟨filled, opened, closed⟩⟩

def Edit.Overlaps (a b : Edit) : Prop := ∃ position, a.Covers position ∧ b.Covers position

/-- How edits are decided: those that count do not overlap, and each one that is dropped overlaps
one that counts, which starts before it, or starts where it does and is no shorter. -/
structure Decided (edits counted dropped : List Edit) : Prop where
  all : edits.Perm (counted ++ dropped)
  apart : counted.Pairwise fun a b => a.stop ≤ b.start
  yields : ∀ edit ∈ dropped, ∃ other ∈ counted, other.Overlaps edit ∧
    (other.start < edit.start ∨ other.start = edit.start ∧ edit.stop ≤ other.stop)

/-- What is dropped starts before the cursor, or before the end of an edit that counts and precedes
it: each edit that counts moves the cursor to its own end. -/
theorem keptFrom_dropped (cursor : Nat) {edits : List Edit}
    (sorted : edits.Pairwise fun a b => a.precedes b) :
    ∃ dropped, edits.Perm (keptFrom cursor edits ++ dropped) ∧
      ∀ edit ∈ dropped, edit.start < cursor ∨
        ∃ other ∈ keptFrom cursor edits, other.precedes edit ∧ edit.start < other.stop := by
  induction edits generalizing cursor with
  | nil => exact ⟨[], .nil, by simp⟩
  | cons first more ih =>
    obtain ⟨before, sorted⟩ := List.pairwise_cons.1 sorted
    rw [keptFrom]
    split
    · rename_i reached
      obtain ⟨dropped, all, yields⟩ := ih cursor sorted
      refine ⟨first :: dropped, (all.cons first).trans List.perm_middle.symm, ?_⟩
      exact List.forall_mem_cons.2 ⟨Or.inl reached, yields⟩
    · obtain ⟨dropped, all, yields⟩ := ih first.stop sorted
      refine ⟨dropped, all.cons first, fun edit member => Or.inr ?_⟩
      have later : edit ∈ more := all.mem_iff.2 (List.mem_append_right _ member)
      rcases yields edit member with reached | ⟨other, inside, behind⟩
      · exact ⟨first, List.mem_cons_self, before edit later, reached⟩
      · exact ⟨other, List.mem_cons_of_mem _ inside, behind⟩

theorem kept_decided {edits : List Edit} (filled : ∀ edit ∈ edits, edit.start < edit.stop) :
    ∃ dropped, Decided edits (kept edits) dropped := by
  obtain ⟨dropped, all, yields⟩ := keptFrom_dropped 0 (Edit.sorted_mergeSort edits)
  have whole : edits.Perm (kept edits ++ dropped) := (List.mergeSort_perm _ _).symm.trans all
  refine ⟨dropped, whole, ?_, ?_⟩
  · apply (inOrder_keptFrom 0 _).apart
    exact fun edit member => Nat.le_of_lt (filled edit (mem_of_mem_kept member))
  · intro edit member
    rcases yields edit member with none_ | ⟨other, inside, first, reached⟩
    · exact absurd none_ (Nat.not_lt_zero _)
    · have wide := filled edit (whole.mem_iff.2 (List.mem_append_right _ member))
      have low := start_le_of_precedes first
      exact ⟨other, inside, ⟨edit.start, ⟨low, reached⟩, Nat.le_refl _, wide⟩,
        Edit.precedes_iff.1 first⟩

theorem kept_of_perm {edits permuted : List Edit} (perm : edits.Perm permuted)
    (agree : ∀ a ∈ edits, ∀ b ∈ edits, a.start = b.start → a.stop = b.stop → a.text = b.text) :
    kept permuted = kept edits := by
  have same : (permuted.mergeSort Edit.precedes).Perm (edits.mergeSort Edit.precedes) :=
    (List.mergeSort_perm _ _).trans (perm.symm.trans (List.mergeSort_perm _ _).symm)
  have sorted : permuted.mergeSort Edit.precedes = edits.mergeSort Edit.precedes := by
    refine same.eq_of_pairwise ?_ (Edit.sorted_mergeSort permuted) (Edit.sorted_mergeSort edits)
    intro a b insideA insideB before behind
    have memberA := perm.mem_iff.2 (List.mem_mergeSort.1 insideA)
    have memberB := List.mem_mergeSort.1 insideB
    rw [Edit.precedes_iff] at before behind
    have start : a.start = b.start := by omega
    have stop : a.stop = b.stop := by omega
    have text := agree a memberA b memberB start stop
    cases a
    cases b
    rw [Edit.mk.injEq]
    exact ⟨start, stop, text⟩
  rw [kept, kept, sorted]

/-- What becomes of a byte: one that no edit covers stays, the first one that an edit covers turns
into the text of this edit, and the others that it covers go. -/
def editedByte (edits : List Edit) : Nat × UInt8 → List UInt8
  | (position, byte) =>
    match edits.find? fun edit => edit.Covers position with
    | some edit => if position = edit.start then bytes edit.text else []
    | none => [byte]

def editedFrom (position : Nat) (t : Text) (edits : List Edit) : List UInt8 :=
  (placedBytes position t).flatMap (editedByte edits)

theorem editedByte_free {edits : List Edit} {position : Nat} {byte : UInt8}
    (free : ∀ edit ∈ edits, ¬ edit.Covers position) :
    editedByte edits (position, byte) = [byte] := by
  have none_ : (edits.find? fun edit => edit.Covers position) = none :=
    List.find?_eq_none.2 fun edit member covers => free edit member (of_decide_eq_true covers)
  rw [editedByte, none_]

theorem editedByte_covered {edit : Edit} {more : List Edit} {position : Nat} {byte : UInt8}
    (covers : edit.Covers position) : editedByte (edit :: more) (position, byte)
      = if position = edit.start then bytes edit.text else [] := by
  simp only [editedByte, List.find?_cons, decide_eq_true covers]

theorem editedByte_passed {edit : Edit} {more : List Edit} {position : Nat} {byte : UInt8}
    (passed : ¬ edit.Covers position) :
    editedByte (edit :: more) (position, byte) = editedByte more (position, byte) := by
  simp only [editedByte, List.find?_cons, decide_eq_false passed]

theorem editedFrom_append (position : Nat) (a b : Text) (edits : List Edit) :
    editedFrom position (a ++ b) edits
      = editedFrom position a edits ++ editedFrom (position + width a) b edits := by
  rw [editedFrom, placedBytes_append, List.flatMap_append]
  rfl

theorem editedFrom_free {position : Nat} {t : Text} {edits : List Edit}
    (free : ∀ edit ∈ edits, edit.stop ≤ position ∨ position + width t ≤ edit.start) :
    editedFrom position t edits = bytes t := by
  have stays : ∀ x ∈ placedBytes position t, editedByte edits x = [x.2] := by
    rintro ⟨place, byte⟩ inside
    have bounds := mem_placedBytes_bounds inside
    apply editedByte_free
    rintro edit member ⟨low, high⟩
    have := free edit member
    omega
  rw [editedFrom, List.flatMap_congr stays, ← List.map_eq_flatMap, map_snd_placedBytes]

theorem editedFrom_replaced {t : Text} {edit : Edit} {more : List Edit} (filled : t ≠ [])
    (stop : edit.stop = edit.start + width t) :
    editedFrom edit.start t (edit :: more) = bytes edit.text := by
  obtain ⟨byte, others, split⟩ := List.exists_cons_of_ne_nil (bytes_ne_nil filled)
  have length := congrArg List.length split
  rw [bytes_length, List.length_cons] at length
  have gone : ∀ x ∈ others.mapIdx fun i later => (edit.start + (i + 1), later),
      editedByte (edit :: more) x = [] := by
    intro x inside
    obtain ⟨i, small, rfl⟩ := List.mem_mapIdx.1 inside
    rw [editedByte_covered ⟨by omega, by omega⟩, if_neg (by omega)]
  rw [editedFrom, placedBytes, split, List.mapIdx_cons, List.flatMap_cons,
    List.flatMap_eq_nil_iff.2 gone, List.append_nil, editedByte_covered ⟨by omega, by omega⟩,
    if_pos (Nat.add_zero _)]

theorem editedFrom_passed {position : Nat} {t : Text} {edit : Edit} {more : List Edit}
    (passed : edit.stop ≤ position) :
    editedFrom position t (edit :: more) = editedFrom position t more := by
  apply List.flatMap_congr
  rintro ⟨place, byte⟩ inside
  have bounds := mem_placedBytes_bounds inside
  exact editedByte_passed fun covers => Nat.not_lt_of_le (passed.trans bounds.1) covers.2

theorem Edit.StandsIn.cut {edit : Edit} {t : Text} (stands : edit.StandsIn t) :
    ∃ front inside rest, t = front ++ (inside ++ rest) ∧ inside ≠ [] ∧
      edit.start = width front ∧ edit.stop = width (front ++ inside) := by
  obtain ⟨filled, opened, closed⟩ := stands
  obtain ⟨front, behind, split, start⟩ := boundary_iff.1 opened
  obtain ⟨taken, rest, other, stop⟩ := boundary_iff.1 closed
  rw [start, stop] at filled
  obtain ⟨inside, rfl, rfl⟩ := cut_of_width_le (split.symm.trans other) (Nat.le_of_lt filled)
  refine ⟨front, inside, rest, split, ?_, start, stop⟩
  rintro rfl
  exact Nat.lt_irrefl _ (List.append_nil front ▸ filled)

theorem bytes_applyFrom {t done left : Text} {edits : List Edit} (split : t = done ++ left)
    (stand : ∀ edit ∈ edits, edit.StandsIn t) (ordered : InOrder (width done) edits) :
    bytes (applyFrom t (width done) edits) = editedFrom (width done) left edits := by
  induction edits generalizing done left with
  | nil => rw [applyFrom, editedFrom_free (by simp), split, dropWidth_width_append]
  | cons edit more ih =>
    obtain ⟨first, others⟩ := List.forall_mem_cons.1 stand
    obtain ⟨here, ordered⟩ := ordered
    obtain ⟨front, inside, rest, cut, filled, start, stop⟩ := first.cut
    rw [start] at here
    obtain ⟨piece, rfl, rfl⟩ := cut_of_width_le (split.symm.trans cut) here
    have behind := ordered.le_start fun edit member => Nat.le_of_lt (others edit member).filled
    have later : bytes (applyFrom t edit.stop more) = editedFrom edit.stop rest more := by
      rw [stop] at ordered ⊢
      exact ih (cut.trans (List.append_assoc ..).symm) others ordered
    have reached : width done + width piece = edit.start := by rw [start, width_append]
    have ended : edit.start + width inside = edit.stop := by rw [stop, start, width_append _ inside]
    have before : editedFrom (width done) piece (edit :: more) = bytes piece := by
      apply editedFrom_free
      rw [List.forall_mem_cons, reached]
      refine ⟨Or.inr (Nat.le_refl _), fun other member => Or.inr ?_⟩
      exact (Nat.le_of_lt first.filled).trans (behind other member)
    rw [applyFrom_cons split start, bytes_append, bytes_append, later, editedFrom_append, before,
      reached, editedFrom_append, editedFrom_replaced filled ended.symm, ended,
      editedFrom_passed (Nat.le_refl _)]

/-- The edits that count stand apart, and each other one overlaps one of them that starts before it,
or with it and is no shorter. They turn their ranges into their texts and leave every other byte.
What comes out is the same in any order of the edits, if no two of them put different texts in place
of one range. -/
theorem edits_decided_and_applied {t : Text} {edits : List Edit}
    (stand : ∀ edit ∈ edits, edit.StandsIn t) :
    (∃ dropped, Decided edits (kept edits) dropped) ∧
      bytes (applyEdits t edits) = editedFrom 0 t (kept edits) ∧
      ∀ permuted, edits.Perm permuted →
        (∀ a ∈ edits, ∀ b ∈ edits, a.start = b.start → a.stop = b.stop → a.text = b.text) →
        applyEdits t permuted = applyEdits t edits := by
  refine ⟨kept_decided fun edit member => (stand edit member).filled, ?_, ?_⟩
  · have counted : ∀ edit ∈ kept edits, edit.StandsIn t := fun edit member =>
      stand edit (mem_of_mem_kept member)
    exact bytes_applyFrom (List.nil_append t).symm counted (inOrder_keptFrom 0 _)
  · intro permuted perm agree
    rw [applyEdits, applyEdits, kept_of_perm perm agree]

def nestedNames : Text := "a = 'app/maß'; maß"

def nestedEdits : List Edit :=
  [⟨4, 14, "Size"⟩, ⟨4, 8, "App"⟩, ⟨9, 13, "Unit"⟩, ⟨16, 20, "Size.unit"⟩]

theorem nestedEdits_applied :
    (∀ edit ∈ nestedEdits, edit.StandsIn nestedNames) ∧
      (∃ dropped, Decided nestedEdits [⟨4, 14, "Size"⟩, ⟨16, 20, "Size.unit"⟩] dropped) ∧
      bytes (applyEdits nestedNames nestedEdits) = bytes "a = Size; Size.unit" ∧
      applyEdits nestedNames nestedEdits.reverse = applyEdits nestedNames nestedEdits := by
  have stand : ∀ edit ∈ nestedEdits, edit.StandsIn nestedNames := by decide +kernel
  have counted : kept nestedEdits = [⟨4, 14, "Size"⟩, ⟨16, 20, "Size.unit"⟩] := by
    rw [kept_of_sorted (by decide +kernel)]
    decide +kernel
  obtain ⟨decided, applied, any⟩ := edits_decided_and_applied stand
  rw [counted] at decided applied
  exact ⟨stand, decided, applied.trans (by decide +kernel),
    any _ (List.reverse_perm _).symm (by decide +kernel)⟩

end ComponentBundle.Bundle
