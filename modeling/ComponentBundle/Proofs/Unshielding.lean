import ComponentBundle.Proofs.Compaction
import ComponentBundle.Proofs.FinalLine

/-!
A shielded text that is put together again without a change. A text that leaves too few private
characters may use a mark itself. Inside a span that does no harm, and outside of one it is
always noticed: a closing mark closes nothing, and an opening mark is either malformed
or takes an index that the placeholder of that index needs as well.
-/
namespace ComponentBundle.Bundle
open ComponentBundle.Text ComponentBundle.Source

theorem sentinels_delimit (t : Text) : Delimits (sentinels t).1 (sentinels t).2 := by
  have high : ∀ {c : Char}, c ∈ privateChars → isNumeralChar c = false := fun inside =>
    isNumeralChar_of_high (by have := privateChars_range inside; omega)
  have first : isNumeralChar (Char.ofNat 0xF0000) = false := isNumeralChar_of_high (by decide)
  have second : isNumeralChar (Char.ofNat 0xF0001) = false := isNumeralChar_of_high (by decide)
  have beyond : ∀ {c : Char}, c ∈ privateChars → c ≠ Char.ofNat 0xF0001 := by
    rintro c inside rfl
    have := privateChars_range inside
    have above : 0xF900 ≤ (Char.ofNat 0xF0001).toNat := by decide
    omega
  cases foundOpener : privateChars.find? fun c => !t.contains c with
  | none =>
    have used : (privateChars.find? fun c => some c ≠ none && !t.contains c) = none := by
      simpa [List.find?_eq_none] using foundOpener
    simp only [sentinels, foundOpener, used, Option.getD_none]
    exact ⟨by decide, first, second⟩
  | some opener =>
    have openerPrivate := List.mem_of_find?_eq_some foundOpener
    cases foundCloser : privateChars.find? fun c => some c ≠ some opener && !t.contains c with
    | none =>
      simp only [sentinels, foundOpener, foundCloser, Option.getD_none, Option.getD_some]
      exact ⟨beyond openerPrivate, high openerPrivate, second⟩
    | some closer =>
      have other := List.find?_some foundCloser
      simp only [sentinels, foundOpener, foundCloser, Option.getD_some]
      refine ⟨?_, high openerPrivate, high (List.mem_of_find?_eq_some foundCloser)⟩
      rintro rfl
      simp at other

theorem spell_dropWhile {opener closer : Char} (apart : opener ≠ closer) {items : List Item}
    {index : Nat} {mark : Char} {tail : Text}
    (rest : (spell opener closer index items).dropWhile (· ≠ closer) = mark :: tail)
    (inner : opener ∉ (spell opener closer index items).takeWhile (· ≠ closer)) :
    ∃ (digits : Text) (more : List Item), items = digits.map .char ++ .char closer :: more ∧
      tail = spell opener closer index more := by
  induction items with
  | nil => contradiction
  | cons item more ih =>
    cases item with
    | char c =>
      rw [spell] at rest inner
      by_cases closes : c = closer
      · subst closes
        rw [List.dropWhile_cons_of_neg (by simp)] at rest
        exact ⟨[], more, rfl, (List.cons.inj rest).2.symm⟩
      · rw [List.dropWhile_cons_of_pos (by simpa using closes)] at rest
        rw [List.takeWhile_cons_of_pos (by simpa using closes)] at inner
        obtain ⟨digits, others, split, behind⟩ := ih rest fun inside =>
          inner (List.mem_cons_of_mem _ inside)
        exact ⟨c :: digits, others, congrArg (List.cons (.char c)) split, behind⟩
    | span text =>
      refine absurd ?_ inner
      rw [spell, placeholder, List.cons_append, List.takeWhile_cons_of_pos (by simpa using apart)]
      exact List.mem_cons_self

theorem unshieldFrom_opener (s : Shielded) (delimits : Delimits s.opener s.closer)
    (used : List Nat) (index : Nat) (items : List Item) :
    (∃ fault, s.unshieldFrom used (s.opener :: spell s.opener s.closer index items)
        = .error fault) ∨
      ∃ (digits : Text) (more : List Item) (i : Nat) (span : Text),
        items = digits.map .char ++ .char s.closer :: more ∧ i < s.hidden.length ∧ i ∉ used ∧
        s.unshieldFrom used (s.opener :: spell s.opener s.closer index items)
          = (s.unshieldFrom (i :: used) (spell s.opener s.closer index more)).map (span ++ ·) := by
  rw [Shielded.unshieldFrom, if_neg delimits.apart, if_pos rfl]
  dsimp only
  cases rest : (spell s.opener s.closer index items).dropWhile (· ≠ s.closer) with
  | nil => exact Or.inl ⟨_, rfl⟩
  | cons mark tail =>
    rw [List.isEmpty_cons, if_neg Bool.false_ne_true]
    split
    · exact Or.inl ⟨_, rfl⟩
    · rename_i i read
      have inner : s.opener ∉ (spell s.opener s.closer index items).takeWhile (· ≠ s.closer) := by
        intro inside
        have numeral := numeral_of_natural? read s.opener inside
        rw [delimits.openerPlain] at numeral
        contradiction
      obtain ⟨digits, more, split, rfl⟩ := spell_dropWhile delimits.apart rest inner
      split
      · exact Or.inl ⟨_, rfl⟩
      · rename_i span here
        split
        · exact Or.inl ⟨_, rfl⟩
        · rename_i fresh
          refine Or.inr ⟨digits, more, i, span, split, (List.getElem?_eq_some_iff.1 here).1, ?_, rfl⟩
          exact fun inside => fresh (List.contains_iff_mem.2 inside)

theorem error_map {read : Except PlaceholderFault Text} (lead : Text)
    (h : ∃ fault, read = .error fault) : ∃ fault, read.map (lead ++ ·) = .error fault := by
  obtain ⟨fault, rfl⟩ := h
  exact ⟨fault, rfl⟩

def Stray (s : Shielded) (items : List Item) (index : Nat) (used : List Nat) : Prop :=
  (∃ c, .char c ∈ items ∧ (c = s.opener ∨ c = s.closer)) ∨
    ∃ i ∈ used, index ≤ i ∧ i < s.hidden.length

section
variable {s : Shielded} {more : List Item} {index : Nat} {used : List Nat}

theorem Stray.behind_char {c : Char} (h : Stray s (.char c :: more) index used)
    (opens : c ≠ s.opener) (closes : c ≠ s.closer) : Stray s more index used := by
  refine h.imp_left ?_
  intro ⟨d, member, mark⟩
  rcases List.mem_cons.1 member with same | later
  · obtain rfl := Item.char.inj same
    exact absurd mark (not_or.2 ⟨opens, closes⟩)
  · exact ⟨d, later, mark⟩

theorem Stray.behind_span {text : Text} (h : Stray s (.span text :: more) index used)
    (fresh : index ∉ used) : Stray s more (index + 1) (index :: used) := by
  rcases h with ⟨c, member, mark⟩ | ⟨i, member, low, high⟩
  · exact Or.inl ⟨c, by simpa using member, mark⟩
  · have other : i ≠ index := by
      intro same
      exact fresh (same ▸ member)
    exact Or.inr ⟨i, List.mem_cons_of_mem _ member, by omega, high⟩

theorem seen_next (seen : ∀ i < index, i ∈ used) : ∀ i < index + 1, i ∈ index :: used := by
  intro i below
  rcases Nat.lt_succ_iff_lt_or_eq.1 below with earlier | rfl
  · exact List.mem_cons_of_mem _ (seen i earlier)
  · exact List.mem_cons_self

end

/-- What is stray is an error sooner or later. -/
theorem unshieldFrom_of_stray (s : Shielded) (delimits : Delimits s.opener s.closer)
    (items : List Item) (index : Nat) (used : List Nat)
    (hidden : s.hidden.drop index = items.filterMap Item.span?) (seen : ∀ i < index, i ∈ used)
    (stray : Stray s items index used) :
    ∃ fault, s.unshieldFrom used (spell s.opener s.closer index items) = .error fault := by
  -- not along the items, for an opening mark takes all characters before a closing one
  induction length : items.length using Nat.strongRecOn generalizing items index used with
  | ind n ih =>
    subst length
    cases items with
    | nil =>
      rcases stray with ⟨c, member, -⟩ | ⟨i, -, low, high⟩
      · contradiction
      · have short : s.hidden.length ≤ index := List.drop_eq_nil_iff.1 hidden
        omega
    | cons item more =>
      cases item with
      | char c =>
        rw [spell]
        by_cases opens : c = s.opener
        · subst opens
          rcases unshieldFrom_opener s delimits used index more with
            broken | ⟨digits, others, i, span, rfl, within, fresh, behind⟩
          · exact broken
          · -- the placeholder of this index is still to come
            have late : index ≤ i := by
              by_contra early
              exact fresh (seen i (Nat.lt_of_not_le early))
            rw [behind]
            apply error_map
            refine ih others.length ?_ others index (i :: used) ?_ ?_ ?_ rfl
            · simp only [List.length_cons, List.length_append]
              omega
            · rw [hidden]
              simp [Item.span?, List.filterMap_cons, List.filterMap_append]
            · intro j below
              exact List.mem_cons_of_mem _ (seen j below)
            · exact Or.inr ⟨i, List.mem_cons_self, late, within⟩
        · rw [Shielded.unshieldFrom]
          by_cases closes : c = s.closer
          · exact ⟨.strayTerminator, if_pos closes⟩
          · rw [if_neg closes, if_neg opens]
            apply error_map [c]
            exact ih more.length (by simp) more index used hidden seen
              (stray.behind_char opens closes) rfl
      | span text =>
        obtain ⟨here, left⟩ := getElem?_of_drop (hidden.trans List.filterMap_cons)
        rw [spell, unshieldFrom_placeholder s delimits here]
        split
        · exact ⟨_, rfl⟩
        · rename_i repeated
          have fresh : index ∉ used := fun inside => repeated (List.contains_iff_mem.2 inside)
          apply error_map
          exact ih more.length (by simp) more (index + 1) (index :: used) left (seen_next seen)
            (stray.behind_span fresh) rfl

def exposed (t : Text) : Text :=
  (lex t).flatMap fun segment => if segment.kind.span?.isSome then [] else segment.text

theorem mem_exposed_iff {t : Text} {c : Char} : c ∈ exposed t ↔ .char c ∈ itemsOf t := by
  rw [exposed, itemsOf, List.mem_flatMap, List.mem_flatMap]
  refine exists_congr fun segment => and_congr_right fun _ => ?_
  rw [segmentItems]
  cases segment.kind <;> simp [SegmentKind.span?]

/-- Whether no mark of a shielded text stands between the spans of the text itself. -/
def MarksApart (t : Text) : Prop := (shield t).opener ∉ exposed t ∧ (shield t).closer ∉ exposed t

theorem marksApart_of_spare {t : Text} (spare : SparesPrivate t) : MarksApart t := by
  obtain ⟨-, noOpener, noCloser⟩ := shield_marks spare
  constructor
  · exact fun inside => noOpener (mem_of_mem_itemsOf (mem_exposed_iff.1 inside))
  · exact fun inside => noCloser (mem_of_mem_itemsOf (mem_exposed_iff.1 inside))

/-- A shielded text is the text again when its spans are put back, unless one of the marks stands
between the spans already. Then it is refused. -/
theorem unshield_shield (t : Text) :
    (MarksApart t → (shield t).unshield (shield t).text = .ok t) ∧
      (¬ MarksApart t → ∃ problem, (shield t).unshield (shield t).text = .error problem ∧
        problem.code = Code.brokenPlaceholder) ∧
      (SparesPrivate t → MarksApart t) := by
  have delimits : Delimits (shield t).opener (shield t).closer := sentinels_delimit t
  have hidden : (shield t).hidden.drop 0 = (itemsOf t).filterMap Item.span? := shield_hidden t
  refine ⟨?_, ?_, marksApart_of_spare⟩
  · rintro ⟨noOpener, noCloser⟩
    have clean : ∀ c, .char c ∈ itemsOf t → c ≠ (shield t).opener ∧ c ≠ (shield t).closer := by
      intro c member
      rw [← mem_exposed_iff] at member
      constructor
      · rintro rfl
        exact noOpener member
      · rintro rfl
        exact noCloser member
    have read := unshieldFrom_spell (shield t) delimits (itemsOf t) clean 0 [] hidden (by simp)
    rw [Shielded.unshield, shield_text, read, textOf_itemsOf]
    rfl
  · intro mixed
    have stray : ∃ c, .char c ∈ itemsOf t ∧ (c = (shield t).opener ∨ c = (shield t).closer) := by
      by_contra none_
      refine mixed ⟨fun inside => none_ ?_, fun inside => none_ ?_⟩
      · exact ⟨_, mem_exposed_iff.1 inside, Or.inl rfl⟩
      · exact ⟨_, mem_exposed_iff.1 inside, Or.inr rfl⟩
    obtain ⟨fault, broken⟩ := unshieldFrom_of_stray (shield t) delimits (itemsOf t) 0 [] hidden
      (by simp) (Or.inl stray)
    rw [Shielded.unshield, shield_text, broken]
    exact ⟨_, rfl, rfl⟩

def crowded : Text := privateChars ++ [Char.ofNat 0xF0000]

theorem exposed_quiet {t : Text} (quiet : ∀ c ∈ t, isQuiet c) : exposed t = t := by
  rw [exposed, lex, lexFrom_quiet quiet, List.append_nil, codeSegment]
  split
  · rename_i empty
    simpa using empty.symm
  · simp [SegmentKind.span?]

theorem crowded_opener : (shield crowded).opener = Char.ofNat 0xF0000 := by
  have used : (privateChars.find? fun c => !crowded.contains c) = none := by
    rw [List.find?_eq_none]
    intro c inside
    simp [crowded, inside]
  rw [shield, sentinels, used]
  rfl

theorem crowded_refused : ∃ problem,
    (shield crowded).unshield (shield crowded).text = .error problem ∧
      problem.code = Code.brokenPlaceholder := by
  have quiet : ∀ c ∈ crowded, isQuiet c := by
    have wide : ∀ c : Char, 0x80 ≤ c.toNat → isQuiet c := by
      intro c high
      simp [isQuiet, isNameChar, high]
    intro c inside
    apply wide
    rcases List.mem_append.1 inside with known | other
    · have := privateChars_range known
      omega
    · rw [List.mem_singleton.1 other]
      decide
  have mixed : ¬ MarksApart crowded := by
    intro apart
    apply apart.1
    rw [crowded_opener, exposed_quiet quiet]
    exact List.mem_append_right _ List.mem_cons_self
  exact (unshield_shield crowded).2.1 mixed

end ComponentBundle.Bundle
