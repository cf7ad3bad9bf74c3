import ComponentBundle.Bundle.Edit

/-!
The edits that count. They stand in order and do not overlap, and a position that one of all
edits covers is covered by one of them, unless the edits overlap and end apart.
-/
namespace ComponentBundle.Text

theorem takeWidth_append_dropWidth (n : Nat) (t : Text) : takeWidth n t ++ dropWidth n t = t := by
  induction t generalizing n with
  | nil => rfl
  | cons c t ih =>
    rw [takeWidth, dropWidth]
    split
    · rfl
    · rw [List.cons_append, ih]

end ComponentBundle.Text

namespace ComponentBundle.Bundle
open ComponentBundle.Text

theorem Edit.precedes_iff {a b : Edit} :
    a.precedes b ↔ a.start < b.start ∨ a.start = b.start ∧ b.stop ≤ a.stop := by
  simp only [Edit.precedes, Bool.or_eq_true, Bool.and_eq_true, decide_eq_true_eq]

theorem Edit.precedes_trans {a b c : Edit} (first : a.precedes b) (second : b.precedes c) :
    a.precedes c := by
  rw [Edit.precedes_iff] at *
  omega

theorem Edit.precedes_total (a b : Edit) : a.precedes b || b.precedes a := by
  rw [Bool.or_eq_true, Edit.precedes_iff, Edit.precedes_iff]
  omega

theorem start_le_of_precedes {a b : Edit} (h : a.precedes b) : a.start ≤ b.start := by
  rw [Edit.precedes_iff] at h
  omega

theorem Edit.sorted_mergeSort (edits : List Edit) :
    (edits.mergeSort Edit.precedes).Pairwise fun a b => a.precedes b := by
  apply List.pairwise_mergeSort
  · exact fun _ _ _ => Edit.precedes_trans
  · exact Edit.precedes_total

theorem kept_of_sorted {edits : List Edit} (sorted : edits.Pairwise fun a b => a.precedes b) :
    kept edits = keptFrom 0 edits := by
  rw [kept, List.mergeSort_of_pairwise sorted]

theorem mem_of_mem_keptFrom {cursor : Nat} {edits : List Edit} {edit : Edit}
    (h : edit ∈ keptFrom cursor edits) : edit ∈ edits := by
  induction edits generalizing cursor with
  | nil => contradiction
  | cons first more ih =>
    rw [keptFrom] at h
    split at h
    · exact List.mem_cons_of_mem _ (ih h)
    · rcases List.mem_cons.1 h with rfl | later
      · exact List.mem_cons_self
      · exact List.mem_cons_of_mem _ (ih later)

theorem mem_of_mem_kept {edits : List Edit} {edit : Edit} (h : edit ∈ kept edits) : edit ∈ edits :=
  List.mem_mergeSort.1 (mem_of_mem_keptFrom h)

theorem applyFrom_cons {t done piece rest : Text} {edit : Edit}
    (split : t = done ++ (piece ++ rest)) (start : edit.start = width (done ++ piece))
    (more : List Edit) : applyFrom t (width done) (edit :: more)
      = piece ++ (edit.text ++ applyFrom t edit.stop more) := by
  have copied : slice t (width done) edit.start = piece := by
    rw [start, split, width_append, slice_middle]
  rw [applyFrom, copied]

def InOrder : Nat → List Edit → Prop
  | _, [] => True
  | cursor, edit :: more => cursor ≤ edit.start ∧ InOrder edit.stop more

theorem inOrder_keptFrom (cursor : Nat) (edits : List Edit) :
    InOrder cursor (keptFrom cursor edits) := by
  induction edits generalizing cursor with
  | nil => trivial
  | cons first more ih =>
    rw [keptFrom]
    split
    · exact ih cursor
    · rename_i behind
      exact ⟨Nat.le_of_not_lt behind, ih first.stop⟩

theorem InOrder.le_start {cursor : Nat} {edits : List Edit} (h : InOrder cursor edits)
    (forward : ∀ edit ∈ edits, edit.start ≤ edit.stop) : ∀ edit ∈ edits, cursor ≤ edit.start := by
  induction edits generalizing cursor with
  | nil => simp
  | cons first more ih =>
    obtain ⟨here, others⟩ := List.forall_mem_cons.1 forward
    obtain ⟨low, ordered⟩ := h
    intro edit member
    rcases List.mem_cons.1 member with rfl | later
    · exact low
    · have behind := ih ordered others edit later
      omega

theorem InOrder.apart {cursor : Nat} {edits : List Edit} (h : InOrder cursor edits)
    (forward : ∀ edit ∈ edits, edit.start ≤ edit.stop) :
    edits.Pairwise fun a b => a.stop ≤ b.start := by
  induction edits generalizing cursor with
  | nil => exact List.Pairwise.nil
  | cons first more ih =>
    have others := (List.forall_mem_cons.1 forward).2
    exact List.pairwise_cons.2 ⟨h.2.le_start others, ih h.2 others⟩

theorem keptFrom_of_apart {cursor : Nat} {edits : List Edit}
    (apart : edits.Pairwise fun a b => a.stop ≤ b.start)
    (behind : ∀ edit ∈ edits, cursor ≤ edit.start) : keptFrom cursor edits = edits := by
  induction edits generalizing cursor with
  | nil => rfl
  | cons edit more ih =>
    obtain ⟨first, apart⟩ := List.pairwise_cons.1 apart
    have low := behind edit List.mem_cons_self
    rw [keptFrom, if_neg (Nat.not_lt_of_le low), ih apart first]

theorem kept_of_apart {edits : List Edit} (apart : edits.Pairwise fun a b => a.stop ≤ b.start)
    (filled : ∀ edit ∈ edits, edit.start < edit.stop) : kept edits = edits := by
  have sorted : edits.Pairwise fun a b => a.precedes b := by
    refine apart.imp_of_mem fun {a b} inside _ behind => ?_
    have := filled a inside
    rw [Edit.precedes_iff]
    omega
  rw [kept_of_sorted sorted]
  exact keptFrom_of_apart apart fun edit _ => Nat.zero_le _

def Edit.Covers (edit : Edit) (position : Nat) : Prop :=
  edit.start ≤ position ∧ position < edit.stop

instance (edit : Edit) (position : Nat) : Decidable (edit.Covers position) :=
  inferInstanceAs (Decidable (_ ∧ _))

theorem covered_keptFrom {cursor position : Nat} {edits : List Edit} {edit : Edit}
    (sorted : edits.Pairwise fun a b => a.start ≤ b.start) (member : edit ∈ edits)
    (covers : edit.Covers position)
    (held : ∀ other ∈ edits, other.start ≤ edit.start → edit.start < other.stop →
      position < other.stop) :
    edit.start < cursor ∨ ∃ counted ∈ keptFrom cursor edits, counted.Covers position := by
  induction edits generalizing cursor with
  | nil => contradiction
  | cons first more ih =>
    obtain ⟨before, sorted⟩ := List.pairwise_cons.1 sorted
    obtain ⟨heldFirst, held⟩ := List.forall_mem_cons.1 held
    rw [keptFrom]
    rcases List.mem_cons.1 member with rfl | later
    · split
      · exact Or.inl ‹_›
      · exact Or.inr ⟨edit, List.mem_cons_self, covers⟩
    · split
      · exact ih sorted later held
      · right
        rcases ih sorted later held with extra | ⟨counted, inside, covered⟩
        · have low := before edit later
          have := covers.1
          exact ⟨first, List.mem_cons_self, by omega, heldFirst low extra⟩
        · exact ⟨counted, List.mem_cons_of_mem _ inside, covered⟩

theorem covered_kept {position : Nat} {edits : List Edit} {edit : Edit} (member : edit ∈ edits)
    (covers : edit.Covers position)
    (held : ∀ other ∈ edits, other.start ≤ edit.start → edit.start < other.stop →
      position < other.stop) :
    ∃ counted ∈ kept edits, counted.Covers position := by
  have sorted := (Edit.sorted_mergeSort edits).imp start_le_of_precedes
  have found : edit.start < 0 ∨ ∃ counted ∈ kept edits, counted.Covers position :=
    covered_keptFrom sorted (List.mem_mergeSort.2 member) covers
      fun other inside => held other (List.mem_mergeSort.1 inside)
  exact found.resolve_left (Nat.not_lt_zero _)

end ComponentBundle.Bundle
