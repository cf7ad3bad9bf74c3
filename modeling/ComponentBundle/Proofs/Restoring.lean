import ComponentBundle.Proofs.SegmentPlaces
import ComponentBundle.Proofs.Unshielding

/-!
Which texts the spans of a text can be put back into. Such a text is put together from characters
that are no marks and from placeholders, one for each span, in any order. What has been put back
is not read again, and any other text is refused.
-/
namespace ComponentBundle.Bundle
open ComponentBundle.Text ComponentBundle.Source

/-- A numeral and its number: decimal digits, leading zeros among them, and perhaps a plus sign. -/
def Denotes (numeral : Text) (n : Nat) : Prop :=
  ∃ sign digits, numeral = sign ++ digits ∧ (sign = [] ∨ sign = ['+']) ∧ digits ≠ [] ∧
    (∀ c ∈ digits, c.isDigit) ∧ n = Nat.ofDigitChars 10 digits 0

theorem natural?_eq_some_iff {t : Text} {n : Nat} : natural? t = some n ↔ Denotes t n := by
  constructor
  · intro read
    unfold natural? at read
    split at read
    · exact ⟨['+'], _, rfl, Or.inr rfl, digits?_eq_some_iff.1 read⟩
    · exact ⟨[], t, rfl, Or.inl rfl, digits?_eq_some_iff.1 read⟩
  · rintro ⟨sign, digits, rfl, rfl | rfl, filled, known, value⟩
    · unfold natural?
      split
      · rename_i signed
        rw [List.nil_append] at signed
        exact absurd (known '+' (by simp [signed])) (by decide)
      · exact digits?_eq_some_iff.2 ⟨filled, known, value⟩
    · exact digits?_eq_some_iff.2 ⟨filled, known, value⟩

/-- What a text with placeholders is put together from. A placeholder has a numeral for its
index. -/
inductive Fragment where
  | char (c : Char)
  | placeholder (numeral : Text) (index : Nat)
  deriving Repr, DecidableEq

def Fragment.text (opener closer : Char) : Fragment → Text
  | .char c => [c]
  | .placeholder numeral _ => opener :: (numeral ++ [closer])

def Fragment.restored (spans : List Text) : Fragment → Text
  | .char c => [c]
  | .placeholder _ index => spans[index]?.getD []

def Fragment.index? : Fragment → Option Nat
  | .char _ => none
  | .placeholder _ index => some index

def Fragment.Sound (opener closer : Char) : Fragment → Prop
  | .char c => c ≠ opener ∧ c ≠ closer
  | .placeholder numeral index => Denotes numeral index

/-- A text of sound fragments in which each index below `count` has one placeholder. -/
structure Assembled (opener closer : Char) (count : Nat) (fragments : List Fragment) (t : Text) :
    Prop where
  text : t = fragments.flatMap (Fragment.text opener closer)
  sound : ∀ fragment ∈ fragments, fragment.Sound opener closer
  once : (fragments.filterMap Fragment.index?).Perm (List.range count)

structure Completes (count : Nat) (used indices : List Nat) : Prop where
  once : indices.Nodup
  exact : ∀ index, index ∈ indices ↔ index < count ∧ index ∉ used

theorem completes_nil_iff {count : Nat} {used : List Nat} :
    Completes count used [] ↔ ∀ index < count, index ∈ used := by
  constructor
  · rintro ⟨-, exact⟩ index below
    by_contra fresh
    exact absurd ((exact index).2 ⟨below, fresh⟩) List.not_mem_nil
  · intro all
    refine ⟨List.nodup_nil, fun index => ?_⟩
    simpa using all index

theorem completes_cons_iff {count index : Nat} {used more : List Nat} :
    Completes count used (index :: more) ↔
      index < count ∧ index ∉ used ∧ Completes count (index :: used) more := by
  constructor
  · rintro ⟨once, exact⟩
    obtain ⟨apart, once⟩ := List.nodup_cons.1 once
    obtain ⟨below, fresh⟩ := (exact index).1 List.mem_cons_self
    refine ⟨below, fresh, once, fun other => ?_⟩
    have := exact other
    grind
  · rintro ⟨below, fresh, once, exact⟩
    have apart : index ∉ more := by
      intro inside
      exact ((exact index).1 inside).2 List.mem_cons_self
    refine ⟨List.nodup_cons.2 ⟨apart, once⟩, fun other => ?_⟩
    have := exact other
    grind

theorem completes_start_iff {count : Nat} {indices : List Nat} :
    Completes count [] indices ↔ indices.Perm (List.range count) := by
  constructor
  · rintro ⟨once, exact⟩
    refine (List.perm_ext_iff_of_nodup once List.nodup_range).2 fun index => ?_
    simpa using exact index
  · intro same
    refine ⟨same.nodup_iff.2 List.nodup_range, fun index => ?_⟩
    simpa using same.mem_iff (a := index)

section
variable {s : Shielded} {used : List Nat} {t restored : Text}

theorem unshieldFrom_nil_eq_ok_iff : s.unshieldFrom used [] = .ok restored ↔
    restored = [] ∧ Completes s.hidden.length used [] := by
  rw [Shielded.unshieldFrom, completes_nil_iff]
  split
  · rename_i index lost
    have open_ := List.find?_some lost
    have below := List.mem_range.1 (List.mem_of_find?_eq_some lost)
    simp only [Bool.not_eq_true', List.contains_eq_mem, decide_eq_false_iff_not] at open_
    simp only [reduceCtorEq, false_iff, not_and]
    intro _ all
    exact open_ (all index below)
  · rename_i none_
    have all := List.find?_eq_none.1 none_
    simp only [List.mem_range, Bool.not_eq_true', Bool.not_eq_false, List.contains_iff_mem] at all
    simp only [Except.ok.injEq, eq_comm]
    exact (and_iff_left all).symm

theorem unshieldFrom_char {c : Char} (sound : c ≠ s.opener ∧ c ≠ s.closer) :
    s.unshieldFrom used (c :: t) = (s.unshieldFrom used t).map (c :: ·) := by
  rw [Shielded.unshieldFrom, if_neg sound.2, if_neg sound.1]

theorem map_eq_ok_iff {read : Except PlaceholderFault Text} {f : Text → Text} :
    read.map f = .ok restored ↔ ∃ rest, read = .ok rest ∧ restored = f rest := by
  cases read <;> simp [Except.map, eq_comm]

theorem unshieldFrom_fragments (delimits : Delimits s.opener s.closer) {fragments : List Fragment}
    (sound : ∀ fragment ∈ fragments, fragment.Sound s.opener s.closer)
    (completes : Completes s.hidden.length used (fragments.filterMap Fragment.index?)) :
    s.unshieldFrom used (fragments.flatMap (Fragment.text s.opener s.closer))
      = .ok (fragments.flatMap (Fragment.restored s.hidden)) := by
  induction fragments generalizing used with
  | nil => exact unshieldFrom_nil_eq_ok_iff.2 ⟨rfl, completes⟩
  | cons fragment more ih =>
    obtain ⟨first, others⟩ := List.forall_mem_cons.1 sound
    cases fragment with
    | char c =>
      have behind := ih others completes
      rw [List.flatMap_cons, List.flatMap_cons, Fragment.text, List.singleton_append,
        unshieldFrom_char first, behind]
      rfl
    | placeholder numeral index =>
      obtain ⟨below, fresh, completes⟩ := completes_cons_iff.1 completes
      have here := List.getElem?_eq_getElem below
      have behind := ih others completes
      rw [List.flatMap_cons, List.flatMap_cons, Fragment.text, List.cons_append, List.append_assoc,
        List.singleton_append,
        unshieldFrom_numeral s delimits (natural?_eq_some_iff.2 first) here,
        if_neg (by simpa using fresh), behind, Fragment.restored, here]
      rfl

theorem fragments_of_unshieldFrom (h : s.unshieldFrom used t = .ok restored) :
    ∃ fragments : List Fragment, t = fragments.flatMap (Fragment.text s.opener s.closer) ∧
      (∀ fragment ∈ fragments, fragment.Sound s.opener s.closer) ∧
      Completes s.hidden.length used (fragments.filterMap Fragment.index?) ∧
      restored = fragments.flatMap (Fragment.restored s.hidden) := by
  fun_induction Shielded.unshieldFrom s used t generalizing restored with
  | case1 | case3 | case4 | case5 | case6 | case7 => contradiction
  | case2 used none_ =>
    obtain rfl := Except.ok.inj h
    have read : s.unshieldFrom used [] = .ok [] := by rw [Shielded.unshieldFrom, none_]
    exact ⟨[], rfl, by simp, (unshieldFrom_nil_eq_ok_iff.1 read).2, rfl⟩
  | case8 used t digits rest filled index read span here fresh =>
    rename_i ih
    obtain ⟨behind, ok, rfl⟩ := map_eq_ok_iff.1 h
    obtain ⟨fragments, text, sound, completes, rfl⟩ := ih ok
    obtain ⟨mark, tail, closed⟩ := List.exists_cons_of_ne_nil (by simpa using filled)
    have closes : mark = s.closer := by simpa using stop_of_dropWhile_cons closed
    have split : t = digits ++ s.closer :: tail := by
      rw [← closes, ← closed, List.takeWhile_append_dropWhile]
    have below := (List.getElem?_eq_some_iff.1 here).1
    refine ⟨.placeholder digits index :: fragments, ?_, ?_, ?_, ?_⟩
    · rw [List.flatMap_cons, ← text, closed, List.tail_cons, split, Fragment.text]
      simp
    · exact List.forall_mem_cons.2 ⟨natural?_eq_some_iff.1 read, sound⟩
    · exact completes_cons_iff.2 ⟨below, by simpa using fresh, completes⟩
    · rw [List.flatMap_cons, Fragment.restored, here, Option.getD_some]
  | case9 used c t noCloser noOpener ih =>
    obtain ⟨behind, ok, rfl⟩ := map_eq_ok_iff.1 h
    obtain ⟨fragments, rfl, sound, completes, rfl⟩ := ih ok
    refine ⟨.char c :: fragments, rfl, ?_, completes, rfl⟩
    exact List.forall_mem_cons.2 ⟨⟨noOpener, noCloser⟩, sound⟩

theorem unshield_eq_ok_iff (delimits : Delimits s.opener s.closer) :
    s.unshield t = .ok restored ↔
      ∃ fragments, Assembled s.opener s.closer s.hidden.length fragments t ∧
        restored = fragments.flatMap (Fragment.restored s.hidden) := by
  rw [Shielded.unshield]
  constructor
  · intro ok
    have read : s.unshieldFrom [] t = .ok restored := by
      cases loop : s.unshieldFrom [] t <;> simp_all [Except.mapError]
    obtain ⟨fragments, text, sound, completes, same⟩ := fragments_of_unshieldFrom read
    exact ⟨fragments, ⟨text, sound, completes_start_iff.1 completes⟩, same⟩
  · rintro ⟨fragments, ⟨rfl, sound, once⟩, rfl⟩
    rw [unshieldFrom_fragments delimits sound (completes_start_iff.2 once)]
    rfl

theorem unshield_refusal {problem : Problem} (refused : s.unshield t = .error problem) :
    problem.code = "BUNDLE-PROTECTION-VIOLATION" := by
  rw [Shielded.unshield] at refused
  cases loop : s.unshieldFrom [] t with
  | ok text => simp [loop, Except.mapError] at refused
  | error fault =>
    rw [loop] at refused
    obtain rfl := Except.error.inj refused
    rfl

end

def spanSlices (t : Text) : List Text := (spansIn t).map fun span => slice t span.start span.stop

theorem spanTexts_eq_slices (before : Text) (segments : List Segment) :
    ((extentsFrom (width before) segments).filterMap Extent.span?).map (fun span =>
      slice (before ++ segments.flatMap Segment.text) span.start span.stop)
        = spanTexts segments := by
  induction segments generalizing before with
  | nil => rfl
  | cons segment more ih =>
    have behind := ih (before ++ segment.text)
    rw [width_append, List.append_assoc] at behind
    rw [extentsFrom, List.flatMap_cons, List.filterMap_cons, spanTexts, List.filter_cons,
      Extent.span?]
    cases segment.kind <;>
      simp [SegmentKind.span?, slice_middle, behind, spanTexts]

theorem shield_hidden_eq (t : Text) : (shield t).hidden = spanSlices t := by
  have slices := spanTexts_eq_slices [] (lex t)
  rw [List.nil_append, lex_text] at slices
  exact slices.symm

theorem length_shield_hidden (t : Text) : (shield t).hidden.length = (spansIn t).length := by
  rw [shield_hidden_eq, spanSlices, List.length_map]

/-- The spans of a text are put back into exactly those texts that have, between characters that
are no marks, one placeholder for each span. In place of each stands the source of its span then.
All other texts are refused. -/
theorem restored_iff_assembled (source t restored : Text) :
    ((shield source).unshield t = .ok restored ↔ ∃ fragments,
      Assembled (shield source).opener (shield source).closer (spansIn source).length fragments t ∧
      restored = fragments.flatMap (Fragment.restored (spanSlices source))) ∧
    ((∃ problem, (shield source).unshield t = .error problem ∧
        problem.code = "BUNDLE-PROTECTION-VIOLATION") ↔
      ¬ ∃ fragments, Assembled (shield source).opener (shield source).closer
        (spansIn source).length fragments t) := by
  have delimits : Delimits (shield source).opener (shield source).closer :=
    sentinels_delimit source
  rw [← length_shield_hidden, ← shield_hidden_eq]
  refine ⟨unshield_eq_ok_iff delimits, ?_⟩
  constructor
  · rintro ⟨problem, refused, -⟩ ⟨fragments, assembled⟩
    have read := (unshield_eq_ok_iff delimits).2 ⟨fragments, assembled, rfl⟩
    rw [refused] at read
    contradiction
  · intro other
    cases read : (shield source).unshield t with
    | ok restored =>
      obtain ⟨fragments, assembled, -⟩ := (unshield_eq_ok_iff delimits).1 read
      exact absurd ⟨fragments, assembled⟩ other
    | error problem => exact ⟨problem, rfl, unshield_refusal read⟩

/-- Spans are put back in any order and under any numeral. -/
example : (shield "f('a', 'b');").unshield "g(\uE000+1\uE001)\uE00000\uE001" = .ok "g('b')'a'" := by
  decide +kernel

end ComponentBundle.Bundle
