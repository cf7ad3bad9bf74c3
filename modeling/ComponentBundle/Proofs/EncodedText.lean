import Mathlib.Data.List.Basic
import ComponentBundle.Proofs.Splitting
import ComponentBundle.Text.Shown

/-!
Texts and their bytes. The bytes of a text are cut where the text is, and are shown as that text;
other bytes are shown with replacement characters, and are cut at ASCII characters all the same.
-/
namespace ComponentBundle.Text

theorem utf8EncodeChar_ne_nil (c : Char) : String.utf8EncodeChar c ≠ [] := by
  intro none_
  have length := String.length_utf8EncodeChar c
  have positive := c.utf8Size_pos
  rw [none_, List.length_nil] at length
  omega

theorem bytes_length (t : Text) : (bytes t).length = width t := by
  induction t with
  | nil => rfl
  | cons c t ih =>
    rw [bytes] at ih ⊢
    rw [List.flatMap_cons, List.length_append, ih, String.length_utf8EncodeChar, width_cons]

@[simp] theorem bytes_cons (c : Char) (t : Text) :
    bytes (c :: t) = String.utf8EncodeChar c ++ bytes t := List.flatMap_cons

@[simp] theorem bytes_append (a b : Text) : bytes (a ++ b) = bytes a ++ bytes b :=
  List.flatMap_append

theorem bytes_ne_nil {t : Text} (filled : t ≠ []) : bytes t ≠ [] := by
  cases t with
  | nil => contradiction
  | cons c t =>
    rw [bytes_cons]
    exact List.append_ne_nil_of_left_ne_nil (utf8EncodeChar_ne_nil c) _

theorem char_eq_of_bytes {c d : Char} {a b : List UInt8}
    (same : String.utf8EncodeChar c ++ a = String.utf8EncodeChar d ++ b) : c = d := by
  have read (e : Char) (rest : List UInt8) :
      ((String.utf8EncodeChar e ++ rest).toByteArray).utf8DecodeChar? 0 = some e := by
    rw [List.toByteArray_append]
    exact ByteArray.utf8DecodeChar?_utf8EncodeChar_append
  have left := read c a
  rw [same, read d b] at left
  exact (Option.some.inj left).symm

theorem append_of_bytes {t part : Text} {rest : List UInt8} (same : bytes t = bytes part ++ rest) :
    ∃ behind, t = part ++ behind ∧ rest = bytes behind := by
  induction part generalizing t with
  | nil => exact ⟨t, rfl, same.symm⟩
  | cons c part ih =>
    rw [bytes_cons, List.append_assoc] at same
    cases t with
    | nil => exact absurd (List.append_eq_nil_iff.1 same.symm).1 (utf8EncodeChar_ne_nil c)
    | cons d t =>
      rw [bytes_cons] at same
      obtain rfl := char_eq_of_bytes same
      obtain ⟨behind, rfl, left⟩ := ih (List.append_cancel_left same)
      exact ⟨behind, rfl, left⟩

theorem not_first_of_later {c : Char} {front : List UInt8} {b : UInt8} {more : List UInt8}
    (split : String.utf8EncodeChar c = front ++ b :: more) (later : front ≠ []) (d : Char) :
    (String.utf8EncodeChar d).head? ≠ some b := by
  intro first
  obtain ⟨tail, cut⟩ := List.head?_eq_some_iff.1 first
  have inC : front.length < (String.utf8EncodeChar c).length := by simp [split]
  have inD : 0 < (String.utf8EncodeChar d).length := by simp [cut]
  have atC := @UInt8.isUTF8FirstByte_getElem_utf8EncodeChar c front.length inC
  have atD := @UInt8.isUTF8FirstByte_getElem_utf8EncodeChar d 0 inD
  simp only [split, List.getElem_append_right (Nat.le_refl _), Nat.sub_self,
    List.getElem_cons_zero] at atC
  simp only [cut, List.getElem_cons_zero] at atD
  exact later (List.length_eq_zero_iff.1 (atC.1 (atD.2 trivial)))

theorem head?_of_append {c : Char} {a : List UInt8} {b : UInt8} {more : List UInt8}
    (same : String.utf8EncodeChar c ++ a = b :: more) :
    (String.utf8EncodeChar c).head? = some b := by
  obtain ⟨d, tail, split⟩ := List.exists_cons_of_ne_nil (utf8EncodeChar_ne_nil c)
  rw [split, List.cons_append] at same
  rw [split, List.head?_cons, (List.cons.inj same).1]

/-- The bytes of a filled text stand among those of another one where its characters do. -/
theorem cut_of_bytes {t part : Text} (filled : part ≠ []) {front rest : List UInt8}
    (same : bytes t = front ++ (bytes part ++ rest)) :
    ∃ before behind, t = before ++ (part ++ behind) ∧ front = bytes before ∧
      rest = bytes behind := by
  induction t generalizing front with
  | nil =>
    obtain ⟨-, inside⟩ := List.append_eq_nil_iff.1 same.symm
    exact absurd (List.append_eq_nil_iff.1 inside).1 (bytes_ne_nil filled)
  | cons c t ih =>
    by_cases start : front = []
    · subst start
      obtain ⟨behind, split, left⟩ := append_of_bytes same
      exact ⟨[], behind, split, rfl, left⟩
    · have passed : ∃ later, front = String.utf8EncodeChar c ++ later ∧
          bytes t = later ++ (bytes part ++ rest) := by
        rw [bytes_cons] at same
        rcases List.append_eq_append_iff.1 same with found | ⟨extra, lead, tail⟩
        · exact found
        · cases extra with
          | nil => exact ⟨[], by rw [lead, List.append_nil, List.append_nil], tail.symm⟩
          | cons b extra =>
            obtain ⟨d, more, rfl⟩ := List.exists_cons_of_ne_nil filled
            rw [bytes_cons, List.append_assoc] at tail
            exact absurd (head?_of_append tail) (not_first_of_later lead start d)
      obtain ⟨later, rfl, tail⟩ := passed
      obtain ⟨before, behind, rfl, rfl, left⟩ := ih tail
      exact ⟨c :: before, behind, rfl, (bytes_cons c before).symm, left⟩

theorem bytes_injective : Function.Injective bytes := by
  intro a b same
  have whole : bytes a = bytes b ++ [] := by rw [same, List.append_nil]
  obtain ⟨behind, rfl, left⟩ := append_of_bytes whole
  have none_ : behind = [] := by
    by_contra filled
    exact bytes_ne_nil filled left.symm
  simp [none_]

/-! ASCII characters, which are one byte each that no other character has. -/

section
variable {c : Char} (ascii : c.toNat < 0x80)
include ascii

theorem utf8EncodeChar_ascii : String.utf8EncodeChar c = [c.toUInt8] := by
  have one : c.val.toNat ≤ 127 := by
    rw [Char.toNat_val]
    omega
  exact if_pos one

theorem toUInt8_mem_utf8EncodeChar_iff {d : Char} :
    c.toUInt8 ∈ String.utf8EncodeChar d ↔ c = d := by
  constructor
  · intro inside
    obtain ⟨front, more, split⟩ := List.append_of_mem inside
    by_contra apart
    have later : front ≠ [] := by
      rintro rfl
      refine apart (char_eq_of_bytes (a := more) (b := []) ?_)
      rw [utf8EncodeChar_ascii ascii, split]
      simp
    refine not_first_of_later split later c ?_
    rw [utf8EncodeChar_ascii ascii]
    rfl
  · rintro rfl
    rw [utf8EncodeChar_ascii ascii]
    exact List.mem_singleton_self _

theorem toUInt8_mem_bytes_iff {t : Text} : c.toUInt8 ∈ bytes t ↔ c ∈ t := by
  simp [bytes, List.mem_flatMap, toUInt8_mem_utf8EncodeChar_iff ascii]

theorem head?_bytes_iff {t : Text} : (bytes t).head? = some c.toUInt8 ↔ t.head? = some c := by
  cases t with
  | nil => simp [bytes]
  | cons d t =>
    have filled := utf8EncodeChar_ne_nil d
    rw [bytes_cons, List.head?_append_of_ne_nil _ filled, List.head?_cons, Option.some_inj]
    constructor
    · intro first
      exact ((toUInt8_mem_utf8EncodeChar_iff ascii).1 (List.mem_of_head? first)).symm
    · rintro rfl
      rw [utf8EncodeChar_ascii ascii]
      rfl

theorem getLast?_bytes_iff {t : Text} :
    (bytes t).getLast? = some c.toUInt8 ↔ t.getLast? = some c := by
  rcases List.eq_nil_or_concat t with rfl | ⟨front, d, rfl⟩
  · simp [bytes]
  · have filled := utf8EncodeChar_ne_nil d
    have own : bytes [d] = String.utf8EncodeChar d := by simp [bytes]
    rw [List.concat_eq_append, bytes_append, own, List.getLast?_append_of_ne_nil _ filled,
      List.getLast?_concat, Option.some_inj]
    constructor
    · intro last
      exact ((toUInt8_mem_utf8EncodeChar_iff ascii).1 (List.mem_of_getLast? last)).symm
    · rintro rfl
      rw [utf8EncodeChar_ascii ascii]
      rfl

theorem bytes_cons_ascii (t : Text) : bytes (c :: t) = c.toUInt8 :: bytes t := by
  rw [bytes_cons, utf8EncodeChar_ascii ascii]
  rfl

theorem bytes_middle (a b : Text) : bytes (a ++ c :: b) = bytes a ++ c.toUInt8 :: bytes b := by
  rw [bytes_append, bytes_cons_ascii ascii]

theorem intercalate_bytes (pieces : List Text) :
    [c.toUInt8].intercalate (pieces.map bytes) = bytes (join [c] pieces) := by
  induction pieces with
  | nil => rfl
  | cons piece more ih =>
    cases more with
    | nil => simp [join]
    | cons next more =>
      rw [join, intercalate_cons_cons, bytes_middle ascii, ← join, ← ih]
      exact intercalate_cons_cons _ _ _ _

theorem splitOn_bytes (t : Text) : splitOn c.toUInt8 (bytes t) = (splitOn c t).map bytes := by
  have filled : (splitOn c t).map bytes ≠ [] :=
    fun none_ => splitWhere_ne_nil _ t (List.map_eq_nil_iff.1 none_)
  have free : ∀ piece ∈ (splitOn c t).map bytes, c.toUInt8 ∉ piece := by
    intro piece inside
    obtain ⟨part, member, rfl⟩ := List.mem_map.1 inside
    rw [toUInt8_mem_bytes_iff ascii]
    exact free_of_mem_splitOn member
  rw [← splitOn_intercalate filled free, intercalate_bytes ascii, join_splitOn]

end

/-! What is shown of bytes. -/

theorem shownFrom_eq (n : Nat) (s : List UInt8) : shownFrom n s = shown (s.drop n) := by
  induction n generalizing s with
  | zero => rfl
  | succ n ih =>
    cases s with
    | nil => rfl
    | cons first more => rw [shownFrom, ih, List.drop_succ_cons]

theorem firstChar?_eq_some_iff {s : List UInt8} {c : Char} :
    firstChar? s = some c ↔ ∃ rest, s = String.utf8EncodeChar c ++ rest := by
  constructor
  · intro read
    have split := congrArg (fun b => b.data.toList) (ByteArray.eq_of_utf8DecodeChar?_eq_some read)
    exact ⟨_, by simpa using split⟩
  · rintro ⟨rest, rfl⟩
    rw [firstChar?, List.toByteArray_append]
    exact ByteArray.utf8DecodeChar?_utf8EncodeChar_append

theorem shown_append_char (c : Char) (s : List UInt8) :
    shown (String.utf8EncodeChar c ++ s) = c :: shown s := by
  obtain ⟨first, more, split⟩ := List.exists_cons_of_ne_nil (utf8EncodeChar_ne_nil c)
  have read : firstChar? (String.utf8EncodeChar c ++ s) = some c :=
    firstChar?_eq_some_iff.2 ⟨s, rfl⟩
  have length : more.length = c.utf8Size - 1 := by
    rw [← String.length_utf8EncodeChar c, split, List.length_cons, Nat.add_sub_cancel]
  rw [split, List.cons_append] at read ⊢
  rw [shown, shownFrom, read]
  dsimp only
  rw [shownFrom_eq, ← length, List.drop_left]

theorem shown_broken {first : UInt8} {s : List UInt8} (broken : firstChar? (first :: s) = none) :
    shown (first :: s) = replacement :: shown (s.drop (fitting (laterRanges first) s)) := by
  rw [shown, shownFrom, broken]
  dsimp only
  rw [shownFrom_eq]

theorem bytes_cases (first : UInt8) (s : List UInt8) :
    (∃ c rest, first :: s = String.utf8EncodeChar c ++ rest) ∨ firstChar? (first :: s) = none := by
  cases read : firstChar? (first :: s) with
  | none => exact .inr rfl
  | some c => exact .inl ⟨c, firstChar?_eq_some_iff.1 read⟩

/-- An induction that goes from each place where a shown character starts to the next one. -/
theorem shown_induction {motive : List UInt8 → Prop} (nil : motive [])
    (char : ∀ c s, motive s → motive (String.utf8EncodeChar c ++ s))
    (broken : ∀ first s, firstChar? (first :: s) = none →
      motive (s.drop (fitting (laterRanges first) s)) → motive (first :: s)) (s : List UInt8) :
    motive s := by
  induction length : s.length using Nat.strongRecOn generalizing s with
  | ind n ih =>
    cases s with
    | nil => exact nil
    | cons first s =>
      subst length
      rcases bytes_cases first s with ⟨c, rest, split⟩ | stray
      · rw [split] at ih ⊢
        refine char c rest (ih rest.length ?_ rest rfl)
        have filled := List.length_pos_iff.2 (utf8EncodeChar_ne_nil c)
        rw [List.length_append]
        omega
      · refine broken first s stray (ih _ ?_ _ rfl)
        rw [List.length_drop, List.length_cons]
        omega

theorem shown_bytes (t : Text) : shown (bytes t) = t := by
  induction t with
  | nil => rfl
  | cons c t ih => rw [bytes_cons, shown_append_char, ih]

/-- Bytes that are shown without a replacement character are those of a text. -/
theorem bytes_shown {s : List UInt8} (whole : replacement ∉ shown s) : bytes (shown s) = s := by
  induction s using shown_induction with
  | nil => rfl
  | char c s ih =>
    rw [shown_append_char, List.mem_cons, not_or] at whole
    rw [shown_append_char, bytes_cons, ih whole.2]
  | broken first s stray ih =>
    rw [shown_broken stray] at whole
    exact absurd List.mem_cons_self whole

theorem shown_eq_nil_iff {s : List UInt8} : shown s = [] ↔ s = [] := by
  constructor
  · intro none_
    have whole : replacement ∉ shown s := by simp [none_]
    rw [← bytes_shown whole, none_]
    rfl
  · rintro rfl
    rfl

theorem fitting_le_length (ranges : List (UInt8 × UInt8)) (s : List UInt8) :
    fitting ranges s ≤ s.length := by
  fun_induction fitting ranges s with
  | case1 low high ranges byte bytes within ih => simpa using ih
  | case2 => exact Nat.zero_le _
  | case3 => exact Nat.zero_le _

theorem le_of_mem_laterRanges {first : UInt8} {range : UInt8 × UInt8}
    (inside : range ∈ laterRanges first) : 0x80 ≤ range.1 := by
  have high : ∀ range ∈ laterRanges first, (0x80 : UInt8) ≤ range.1 := by
    unfold laterRanges
    repeat' split
    all_goals simp
  exact high range inside

section
variable {c : Char} (ascii : c.toNat < 0x80)
include ascii

theorem toUInt8_lt : c.toUInt8 < 0x80 := by
  rw [UInt8.lt_iff_toNat_lt]
  have value : c.toUInt8.toNat = c.toNat % 256 := UInt32.toNat_toUInt8 c.val
  rw [value]
  exact Nat.lt_of_le_of_lt (Nat.mod_le _ _) ascii

theorem fitting_append_ascii (first : UInt8) (a b : List UInt8) :
    fitting (laterRanges first) (a ++ c.toUInt8 :: b) = fitting (laterRanges first) a := by
  have high : ∀ range ∈ laterRanges first, (0x80 : UInt8) ≤ range.1 :=
    fun range inside => le_of_mem_laterRanges inside
  generalize laterRanges first = ranges at high
  induction ranges generalizing a with
  | nil => simp [fitting]
  | cons range ranges ih =>
    obtain ⟨low, top⟩ := range
    cases a with
    | nil =>
      have outside : ¬ (low ≤ c.toUInt8 ∧ c.toUInt8 ≤ top) := by
        rintro ⟨above, -⟩
        have least : (0x80 : UInt8) ≤ low := high _ List.mem_cons_self
        have own := toUInt8_lt ascii
        rw [UInt8.le_iff_toNat_le] at above least
        rw [UInt8.lt_iff_toNat_lt] at own
        omega
      simp [fitting, outside]
    | cons byte a =>
      simp only [List.cons_append, fitting,
        ih a fun range inside => high range (List.mem_cons_of_mem _ inside)]

theorem firstChar?_append_ascii {a : List UInt8} (filled : a ≠ []) (b : List UInt8)
    (broken : firstChar? a = none) : firstChar? (a ++ c.toUInt8 :: b) = none := by
  rw [Option.eq_none_iff_forall_ne_some]
  intro d read
  obtain ⟨rest, split⟩ := firstChar?_eq_some_iff.1 read
  rcases List.append_eq_append_iff.1 split with ⟨more, whole, tail⟩ | ⟨more, whole, -⟩
  · cases more with
    | nil =>
      have own : firstChar? a = some d :=
        firstChar?_eq_some_iff.2 ⟨[], by rw [List.append_nil, whole, List.append_nil]⟩
      rw [broken] at own
      contradiction
    | cons byte more =>
      obtain rfl := (List.cons.inj tail).1
      have inside : c.toUInt8 ∈ String.utf8EncodeChar d := by simp [whole]
      obtain rfl := (toUInt8_mem_utf8EncodeChar_iff ascii).1 inside
      rw [utf8EncodeChar_ascii ascii] at whole
      cases a with
      | nil => contradiction
      | cons first a => simp at whole
  · have own : firstChar? a = some d := firstChar?_eq_some_iff.2 ⟨more, whole⟩
    rw [broken] at own
    contradiction

theorem shown_append_ascii (a b : List UInt8) :
    shown (a ++ c.toUInt8 :: b) = shown a ++ c :: shown b := by
  induction a using shown_induction with
  | nil =>
    have single : c.toUInt8 :: b = String.utf8EncodeChar c ++ b := by
      rw [utf8EncodeChar_ascii ascii]
      rfl
    rw [List.nil_append, single, shown_append_char]
    rfl
  | char d s ih =>
    rw [List.append_assoc, shown_append_char, shown_append_char, ih, List.cons_append]
  | broken first s stray ih =>
    have strayed := firstChar?_append_ascii ascii (List.cons_ne_nil first s) b stray
    rw [List.cons_append] at strayed ⊢
    rw [shown_broken strayed, shown_broken stray, fitting_append_ascii ascii,
      List.drop_append_of_le_length (fitting_le_length _ _), ih, List.cons_append]

theorem mem_shown_iff {s : List UInt8} : c ∈ shown s ↔ c.toUInt8 ∈ s := by
  constructor
  · intro inside
    induction s using shown_induction with
    | nil => contradiction
    | char d s ih =>
      rw [shown_append_char, List.mem_cons] at inside
      rw [List.mem_append, toUInt8_mem_utf8EncodeChar_iff ascii]
      exact inside.imp_right ih
    | broken first s stray ih =>
      have other : c ≠ replacement := by
        rintro rfl
        exact absurd ascii (by decide)
      rw [shown_broken stray, List.mem_cons] at inside
      exact List.mem_cons_of_mem _ (List.mem_of_mem_drop (ih (inside.resolve_left other)))
  · intro inside
    obtain ⟨a, b, rfl⟩ := List.append_of_mem inside
    rw [shown_append_ascii ascii]
    simp

end

end ComponentBundle.Text
