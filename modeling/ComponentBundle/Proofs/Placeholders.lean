import Mathlib
import ComponentBundle.Bundle.Placeholder
import ComponentBundle.Text.Blank

/-!
Placeholders stand for spans. A text is taken as its items, which are characters and whole
spans; spelled with placeholders whose marks the characters do not use, it can be read back.
-/
namespace ComponentBundle.Bundle
open ComponentBundle.Text ComponentBundle.Source

theorem digitsValue?_of_digits {t : Text} (digits : ∀ c ∈ t, c.isDigit) (value : Nat) :
    digitsValue? value t = some (Nat.ofDigitChars 10 t value) := by
  induction t generalizing value with
  | nil => rfl
  | cons c t ih =>
    obtain ⟨first, others⟩ := List.forall_mem_cons.1 digits
    simp only [digitsValue?, digit?, first, if_true, Option.bind_some, Nat.ofDigitChars_cons]
    exact ih others _

theorem ofNat_digits (n : Nat) : ∀ c ∈ ofNat n, c.isDigit := fun _ member =>
  Nat.isDigit_of_mem_toDigits (by decide) (by decide) member

theorem natural?_ofNat (n : Nat) : natural? (ofNat n) = some n := by
  have digits := ofNat_digits n
  have filled : ofNat n ≠ [] := Nat.toDigits_ne_nil
  have value : digitsValue? 0 (ofNat n) = some n := by
    rw [digitsValue?_of_digits digits]
    exact congrArg some (Nat.ofDigitChars_toDigits (by decide) (by decide))
  cases spelled : ofNat n with
  | nil => contradiction
  | cons c more =>
    rw [spelled] at digits value
    have first := digits c List.mem_cons_self
    have unsigned : c ≠ '+' := by
      rintro rfl
      contradiction
    simp [natural?, unsigned, digits?, value]

theorem privateChars_range {c : Char} (h : c ∈ privateChars) :
    0xE000 ≤ c.toNat ∧ c.toNat < 0xF900 := by
  obtain ⟨n, member, rfl⟩ := List.mem_map.1 h
  have bounds := List.mem_range'_1.1 member
  have valid : n.isValidChar := Or.inr ⟨by omega, by omega⟩
  have code : (Char.ofNat n).toNat = n := by
    simp [Char.ofNat, valid, Char.ofNatAux, Char.toNat]
  omega

theorem isBlank_of_private {c : Char} (h : c ∈ privateChars) : isBlank c = false := by
  have := privateChars_range h
  simp only [isBlank, Bool.or_eq_false_iff, Bool.and_eq_false_iff, decide_eq_false_iff_not]
  omega

def isNumeralChar (c : Char) : Bool := c.isDigit || c = '+'

theorem digits_of_digitsValue? {t : Text} {start value : Nat}
    (h : digitsValue? start t = some value) : ∀ c ∈ t, c.isDigit := by
  induction t generalizing start with
  | nil => simp
  | cons c t ih =>
    obtain ⟨d, digit, rest⟩ := Option.bind_eq_some_iff.1 h
    refine List.forall_mem_cons.2 ⟨?_, ih rest⟩
    rw [digit?] at digit
    split at digit
    · assumption
    · contradiction

theorem digits?_eq_some_iff {t : Text} {n : Nat} : digits? t = some n ↔
    t ≠ [] ∧ (∀ c ∈ t, c.isDigit) ∧ n = Nat.ofDigitChars 10 t 0 := by
  rw [digits?]
  constructor
  · intro read
    split at read
    · contradiction
    · rename_i filled
      have digits := digits_of_digitsValue? read
      rw [digitsValue?_of_digits digits] at read
      exact ⟨by simpa using filled, digits, (Option.some.inj read).symm⟩
  · rintro ⟨filled, digits, rfl⟩
    rw [if_neg (by simpa using filled), digitsValue?_of_digits digits]

theorem numeral_of_natural? {t : Text} {value : Nat} (h : natural? t = some value) :
    ∀ c ∈ t, isNumeralChar c := by
  have digits : ∀ u, digits? u = some value → ∀ c ∈ u, isNumeralChar c := by
    intro u read c inside
    have digit := (digits?_eq_some_iff.1 read).2.1 c inside
    simp [isNumeralChar, digit]
  unfold natural? at h
  split at h
  · exact List.forall_mem_cons.2 ⟨rfl, digits _ h⟩
  · exact digits _ h

def SparesPrivate (t : Text) : Prop :=
  ∃ a ∈ privateChars, ∃ b ∈ privateChars, a ≠ b ∧ a ∉ t ∧ b ∉ t

structure Marks (opener closer : Char) : Prop where
  openerPrivate : opener ∈ privateChars
  closerPrivate : closer ∈ privateChars
  apart : opener ≠ closer

theorem sentinels_fresh {t : Text} (spare : SparesPrivate t) :
    Marks (sentinels t).1 (sentinels t).2 ∧ (sentinels t).1 ∉ t ∧ (sentinels t).2 ∉ t := by
  obtain ⟨a, insideA, b, insideB, apart, freeA, freeB⟩ := spare
  have first : (privateChars.find? fun c => !t.contains c).isSome :=
    List.find?_isSome.2 ⟨a, insideA, by simpa using freeA⟩
  obtain ⟨opener, foundOpener⟩ := Option.isSome_iff_exists.1 first
  have second : (privateChars.find? fun c => some c ≠ some opener && !t.contains c).isSome := by
    by_cases same : a = opener
    · exact List.find?_isSome.2 ⟨b, insideB, by simpa [← same, apart.symm] using freeB⟩
    · exact List.find?_isSome.2 ⟨a, insideA, by simpa [same] using freeA⟩
  obtain ⟨closer, foundCloser⟩ := Option.isSome_iff_exists.1 second
  have pair : sentinels t = (opener, closer) := by
    simp only [sentinels, foundOpener, foundCloser, Option.getD_some]
  have openerFree := List.find?_some foundOpener
  have closerFree := List.find?_some foundCloser
  rw [pair]
  refine ⟨⟨List.mem_of_find?_eq_some foundOpener, List.mem_of_find?_eq_some foundCloser, ?_⟩, ?_⟩
  · simp at closerFree
    exact Ne.symm closerFree.1
  · simp at openerFree closerFree
    exact ⟨openerFree, closerFree.2⟩

/-- What a text with spans consists of. A span counts as one item. -/
inductive Item where
  | char (c : Char)
  | span (text : Text)
  deriving Repr, DecidableEq

def Item.text : Item → Text
  | .char c => [c]
  | .span text => text

def Item.span? : Item → Option Text
  | .char _ => none
  | .span text => some text

def textOf (items : List Item) : Text := items.flatMap Item.text

def segmentItems (segment : Segment) : List Item :=
  match segment.kind with
  | .span _ => [.span segment.text]
  | _ => segment.text.map .char

def itemsOf (t : Text) : List Item := (lex t).flatMap segmentItems

def spell (opener closer : Char) (index : Nat) : List Item → Text
  | [] => []
  | .char c :: more => c :: spell opener closer index more
  | .span _ :: more => placeholder opener closer index ++ spell opener closer (index + 1) more

theorem spell_chars (opener closer : Char) (index : Nat) (t : Text) (more : List Item) :
    spell opener closer index (t.map .char ++ more) = t ++ spell opener closer index more := by
  induction t with
  | nil => rfl
  | cons c t ih => simp [spell, ih]

theorem spell_append_chars (opener closer : Char) (index : Nat) (items : List Item) (t : Text) :
    spell opener closer index (items ++ t.map .char) = spell opener closer index items ++ t := by
  induction items generalizing index with
  | nil => simpa [spell] using spell_chars opener closer index t []
  | cons item more ih => cases item <;> simp [spell, ih]

theorem shieldFrom_eq_spell (opener closer : Char) (index : Nat) (segments : List Segment) :
    shieldFrom opener closer index segments
      = spell opener closer index (segments.flatMap segmentItems) := by
  induction segments generalizing index with
  | nil => rfl
  | cons segment more ih =>
    rw [shieldFrom, List.flatMap_cons, segmentItems]
    cases segment.kind <;> simp [spell, spell_chars, ih]

theorem textOf_chars (t : Text) : textOf (t.map .char) = t := by
  induction t with
  | nil => rfl
  | cons c t ih => simpa [textOf, Item.text] using ih

theorem spans_chars (t : Text) : (t.map Item.char).filterMap Item.span? = [] := by
  simp [List.filterMap_map, Item.span?, Function.comp_def]

theorem segmentItems_text (segment : Segment) : textOf (segmentItems segment) = segment.text := by
  rw [segmentItems]
  cases segment.kind <;> simp [textOf_chars]
  simp [textOf, Item.text]

theorem spans_itemsOf (t : Text) : (itemsOf t).filterMap Item.span? = spanTexts (lex t) := by
  rw [itemsOf]
  induction lex t with
  | nil => rfl
  | cons segment more ih =>
    rw [List.flatMap_cons, List.filterMap_append, ih, segmentItems, spanTexts, spanTexts,
      List.filter_cons]
    cases segment.kind <;> simp [SegmentKind.span?, Item.span?]

theorem shield_marks {t : Text} (spare : SparesPrivate t) :
    Marks (shield t).opener (shield t).closer ∧ (shield t).opener ∉ t ∧ (shield t).closer ∉ t :=
  sentinels_fresh spare

theorem shield_text (t : Text) :
    (shield t).text = spell (shield t).opener (shield t).closer 0 (itemsOf t) :=
  shieldFrom_eq_spell _ _ 0 (lex t)

theorem shield_hidden (t : Text) : (shield t).hidden = (itemsOf t).filterMap Item.span? :=
  (spans_itemsOf t).symm

structure Delimits (opener closer : Char) : Prop where
  apart : opener ≠ closer
  openerPlain : isNumeralChar opener = false
  closerPlain : isNumeralChar closer = false

theorem isNumeralChar_of_high {c : Char} (high : 0x80 ≤ c.toNat) : isNumeralChar c = false := by
  have last : '9'.toNat = 57 := rfl
  have sign : c ≠ '+' := by
    rintro rfl
    contradiction
  simp only [isNumeralChar, Char.isDigit, sign, decide_false, Bool.or_false, Bool.and_eq_false_iff,
    decide_eq_false_iff_not]
  refine Or.inr fun small => ?_
  have : c.toNat ≤ '9'.toNat := small
  omega

theorem Marks.delimits {opener closer : Char} (marks : Marks opener closer) :
    Delimits opener closer := by
  have openerRange := privateChars_range marks.openerPrivate
  have closerRange := privateChars_range marks.closerPrivate
  exact ⟨marks.apart, isNumeralChar_of_high (by omega), isNumeralChar_of_high (by omega)⟩

theorem numeral_split {closer : Char} (plain : isNumeralChar closer = false) {numeral : Text}
    (known : ∀ c ∈ numeral, isNumeralChar c) (t : Text) :
    (numeral ++ closer :: t).takeWhile (· ≠ closer) = numeral ∧
      (numeral ++ closer :: t).dropWhile (· ≠ closer) = closer :: t := by
  have inside : ∀ c ∈ numeral, (c ≠ closer : Bool) := by
    intro c member
    have digit := known c member
    simp only [ne_eq, decide_eq_true_eq]
    rintro rfl
    rw [plain] at digit
    contradiction
  rw [List.takeWhile_append_of_pos inside, List.dropWhile_append_of_pos inside]
  simp

theorem getElem?_of_drop {α : Type} {l rest : List α} {n : Nat} {a : α}
    (h : l.drop n = a :: rest) : l[n]? = some a ∧ l.drop (n + 1) = rest := by
  constructor
  · rw [← List.head?_drop, h]
    rfl
  · rw [← List.tail_drop, h]
    rfl

theorem unshieldFrom_numeral (s : Shielded) (delimits : Delimits s.opener s.closer)
    {numeral span : Text} {index : Nat} (read : natural? numeral = some index)
    (here : s.hidden[index]? = some span) (used : List Nat) (t : Text) :
    s.unshieldFrom used (s.opener :: (numeral ++ s.closer :: t))
      = if used.contains index then .error (.repeated index)
        else (s.unshieldFrom (index :: used) t).map (span ++ ·) := by
  obtain ⟨digits, rest⟩ := numeral_split delimits.closerPlain (numeral_of_natural? read) t
  rw [Shielded.unshieldFrom, if_neg delimits.apart, if_pos rfl]
  simp only [digits, rest, List.isEmpty_cons, Bool.false_eq_true, if_false, read, here,
    List.tail_cons]

theorem unshieldFrom_placeholder (s : Shielded) (delimits : Delimits s.opener s.closer)
    {index : Nat} {span : Text} (here : s.hidden[index]? = some span) (used : List Nat) (t : Text) :
    s.unshieldFrom used (placeholder s.opener s.closer index ++ t)
      = if used.contains index then .error (.repeated index)
        else (s.unshieldFrom (index :: used) t).map (span ++ ·) := by
  simp only [placeholder, List.cons_append, List.append_assoc, List.nil_append]
  exact unshieldFrom_numeral s delimits (natural?_ofNat index) here used t

theorem unshieldFrom_spell (s : Shielded) (delimits : Delimits s.opener s.closer)
    (items : List Item) (clean : ∀ c, .char c ∈ items → c ≠ s.opener ∧ c ≠ s.closer) (index : Nat)
    (used : List Nat) (hidden : s.hidden.drop index = items.filterMap Item.span?)
    (seen : ∀ i, i ∈ used ↔ i < index) :
    s.unshieldFrom used (spell s.opener s.closer index items) = .ok (textOf items) := by
  induction items generalizing index used with
  | nil =>
    have done : (List.range s.hidden.length).find? (fun i => !used.contains i) = none := by
      have short : s.hidden.length ≤ index := List.drop_eq_nil_iff.1 hidden
      refine List.find?_eq_none.2 fun i inside => ?_
      have : i ∈ used := (seen i).2 (Nat.lt_of_lt_of_le (List.mem_range.1 inside) short)
      simpa using this
    simp only [spell, Shielded.unshieldFrom, done]
    rfl
  | cons item more ih =>
    have cleanMore : ∀ c, .char c ∈ more → c ≠ s.opener ∧ c ≠ s.closer := fun c member =>
      clean c (List.mem_cons_of_mem _ member)
    cases item with
    | char c =>
      obtain ⟨noOpener, noCloser⟩ := clean c List.mem_cons_self
      have behind := ih cleanMore index used hidden seen
      rw [spell, Shielded.unshieldFrom, if_neg noCloser, if_neg noOpener, behind]
      rfl
    | span text =>
      obtain ⟨here, left⟩ := getElem?_of_drop (hidden.trans List.filterMap_cons)
      have fresh : used.contains index = false := by
        simpa using (not_congr (seen index)).2 (Nat.lt_irrefl index)
      have behind := ih cleanMore (index + 1) (index :: used) left fun i => by
        rw [List.mem_cons, seen i]
        omega
      rw [spell, unshieldFrom_placeholder s delimits here, fresh, behind]
      rfl

end ComponentBundle.Bundle
