import ComponentBundle.Proofs.EncodedText
import ComponentBundle.Proofs.SegmentPlaces

/-!
The bytes of a text and their positions. A character of a text starts where a byte of it starts,
and a range that starts and stops between characters holds all bytes of a character or none.
-/
namespace ComponentBundle.Source
open ComponentBundle.Text

def placedBytes (start : Nat) (t : Text) : List (Nat × UInt8) :=
  (bytes t).mapIdx fun i byte => (start + i, byte)

theorem placedBytes_append (start : Nat) (a b : Text) :
    placedBytes start (a ++ b) = placedBytes start a ++ placedBytes (start + width a) b := by
  rw [placedBytes, bytes_append, List.mapIdx_append, bytes_length]
  simp only [placedBytes, Nat.add_assoc, Nat.add_comm (width a)]

theorem placedBytes_cons (start : Nat) (c : Char) (t : Text) :
    placedBytes start (c :: t) = placedBytes start [c] ++ placedBytes (start + c.utf8Size) t :=
  placedBytes_append start [c] t

theorem placedBytes_eq (start : Nat) (t : Text) :
    placedBytes start t = (placed start t).flatMap fun x => placedBytes x.1 [x.2] := by
  induction t generalizing start with
  | nil => rfl
  | cons c t ih => rw [placedBytes_cons, ih, placed, List.flatMap_cons]

theorem map_snd_placedBytes (start : Nat) (t : Text) :
    (placedBytes start t).map Prod.snd = bytes t := by
  apply List.ext_getElem <;> simp [placedBytes]

theorem mem_placedBytes_bounds {start position : Nat} {t : Text} {byte : UInt8}
    (h : (position, byte) ∈ placedBytes start t) :
    start ≤ position ∧ position < start + width t := by
  obtain ⟨i, small, same⟩ := List.mem_mapIdx.1 h
  rw [bytes_length] at small
  obtain ⟨rfl, -⟩ := Prod.mk.inj same
  omega

theorem filter_placedBytes (test : Nat → Bool) {start : Nat} {t : Text}
    (whole : ∀ place c, (place, c) ∈ placed start t → ∀ i < c.utf8Size,
      test (place + i) = test place) :
    (placedBytes start t).filter (fun x => test x.1)
      = ((placed start t).filter fun x => test x.1).flatMap
        fun x => placedBytes x.1 [x.2] := by
  rw [placedBytes_eq]
  generalize placed start t = chars at whole
  induction chars with
  | nil => rfl
  | cons first more ih =>
    obtain ⟨place, c⟩ := first
    have behind := ih fun place c later => whole place c (List.mem_cons_of_mem _ later)
    have here : ∀ byte ∈ placedBytes place [c], test byte.1 = test place := by
      rintro ⟨position, byte⟩ inside
      obtain ⟨low, high⟩ := mem_placedBytes_bounds inside
      rw [width_cons, width_nil, Nat.add_zero] at high
      have same := whole place c List.mem_cons_self (position - place) (by omega)
      rwa [Nat.add_sub_cancel' low] at same
    rw [List.flatMap_cons, List.filter_append, behind, List.filter_cons]
    cases passes : test place with
    | true =>
      have all : (placedBytes place [c]).filter (fun x => test x.1) = placedBytes place [c] :=
        List.filter_eq_self.2 fun byte inside => (here byte inside).trans passes
      rw [all, if_pos rfl, List.flatMap_cons]
    | false =>
      have none_ : (placedBytes place [c]).filter (fun x => test x.1) = [] :=
        List.filter_eq_nil_iff.2 fun byte inside => by simp [here byte inside, passes]
      rw [none_, if_neg Bool.false_ne_true, List.nil_append]

theorem cut_outside_char {t a b front rest : Text} {c : Char} (cut : t = a ++ b)
    (split : t = front ++ c :: rest) :
    width a ≤ width front ∨ width front + c.utf8Size ≤ width a := by
  rcases Nat.le_total (width a) (width front) with low | high
  · exact Or.inl low
  · obtain ⟨extra, rfl, behind⟩ := cut_of_width_le (split.symm.trans cut) high
    cases extra with
    | nil => exact Or.inl (by simp)
    | cons d extra =>
      obtain ⟨rfl, -⟩ := List.cons.inj behind
      right
      rw [width_append, width_cons]
      omega

theorem range_over_char {t a inside b front rest : Text} {c : Char}
    (cut : t = a ++ (inside ++ b)) (split : t = front ++ c :: rest) {i : Nat}
    (small : i < c.utf8Size) :
    width a ≤ width front + i ∧ width front + i < width (a ++ inside) ↔
      width a ≤ width front ∧ width front < width (a ++ inside) := by
  have first := cut_outside_char cut split
  have last := cut_outside_char (cut.trans (List.append_assoc ..).symm) split
  omega

end ComponentBundle.Source
