import ComponentBundle.Proofs.Spacing

/-!
Tightening a text. It takes spaces away and nothing else, and two operators that would mean
something else side by side stand side by side only where they did before. Where no two spaces
follow each other, the characters next to a space tell whether it stays.
-/
namespace ComponentBundle.Bundle
open ComponentBundle.Text

/-- The second text is the first one without some of its spaces. -/
inductive Thinned : Text → Text → Prop where
  | nil : Thinned [] []
  | keep (c : Char) {a b : Text} (rest : Thinned a b) : Thinned (c :: a) (c :: b)
  | drop {a b : Text} (rest : Thinned a b) : Thinned (' ' :: a) b

theorem thinned_tightenAfter (previous : Option Char) (t : Text) :
    Thinned t (tightenAfter previous t) := by
  induction t generalizing previous with
  | nil => exact .nil
  | cons c t ih =>
    by_cases space : c = ' '
    · subst space
      rw [tightenAfter_space]
      split
      · exact .keep ' ' (ih _)
      · exact .drop (ih _)
    · rw [tightenAfter_other space]
      exact .keep c (ih _)

theorem ne_space_of_isFusing {c : Char} (fusing : isFusing c) : c ≠ ' ' := by
  rintro rfl
  contradiction

theorem head_of_tightenAfter {c : Char} (fusing : isFusing c) {t b : Text}
    (first : tightenAfter (some c) t = c :: b) : ∃ rest, t = c :: rest ∧ Thinned rest b := by
  induction t with
  | nil => contradiction
  | cons d t ih =>
    by_cases space : d = ' '
    · subst space
      rw [tightenAfter_space] at first
      split at first
      · exact absurd (List.cons.inj first).1.symm (ne_space_of_isFusing fusing)
      · rename_i goes
        obtain ⟨rest, rfl, -⟩ := ih first
        simp [parts, fusing] at goes
    · rw [tightenAfter_other space] at first
      obtain ⟨rfl, rfl⟩ := List.cons.inj first
      exact ⟨t, rfl, thinned_tightenAfter _ t⟩

theorem adjacent_of_tightenAfter {c : Char} (fusing : isFusing c) {previous : Option Char}
    {t a b : Text} (adjacent : tightenAfter previous t = a ++ c :: c :: b) :
    ∃ front rest, t = front ++ c :: c :: rest ∧ Thinned front a ∧ Thinned rest b := by
  induction t generalizing previous a with
  | nil => simp [tightenAfter] at adjacent
  | cons d t ih =>
    have kept : ∀ {next}, d :: tightenAfter next t = a ++ c :: c :: b → next = some d →
        ∃ front rest, d :: t = front ++ c :: c :: rest ∧ Thinned front a ∧ Thinned rest b := by
      rintro _ same rfl
      cases a with
      | nil =>
        obtain ⟨rfl, behind⟩ := List.cons.inj same
        obtain ⟨rest, rfl, thin⟩ := head_of_tightenAfter fusing behind
        exact ⟨[], rest, rfl, .nil, thin⟩
      | cons e a =>
        obtain ⟨rfl, behind⟩ := List.cons.inj same
        obtain ⟨front, rest, rfl, thinFront, thinRest⟩ := ih behind
        exact ⟨d :: front, rest, rfl, .keep d thinFront, thinRest⟩
    by_cases space : d = ' '
    · subst space
      rw [tightenAfter_space] at adjacent
      split at adjacent
      · exact kept adjacent rfl
      · obtain ⟨front, rest, rfl, thinFront, thinRest⟩ := ih adjacent
        exact ⟨' ' :: front, rest, rfl, .drop thinFront, thinRest⟩
    · rw [tightenAfter_other space] at adjacent
      exact kept adjacent rfl

def SingleSpaced (t : Text) : Prop := ¬ [' ', ' '] <:+: t

theorem SingleSpaced.tail {c : Char} {t : Text} (single : SingleSpaced (c :: t)) :
    SingleSpaced t := fun inside => single (inside.trans (List.suffix_cons c t).isInfix)

theorem SingleSpaced.head {t : Text} (single : SingleSpaced (' ' :: t)) : t.head? ≠ some ' ' := by
  intro first
  obtain ⟨rest, rfl⟩ := List.head?_eq_some_iff.1 first
  exact single ⟨[], rest, rfl⟩

theorem head?_tightenAfter {t : Text} (other : t.head? ≠ some ' ') (previous : Option Char) :
    (tightenAfter previous t).head? = t.head? := by
  cases t with
  | nil => rfl
  | cons c t =>
    have visible : c ≠ ' ' := by simpa using other
    rw [tightenAfter_other visible]
    rfl

theorem tightenAfter_tightenAfter {t : Text} (single : SingleSpaced t) (previous : Option Char) :
    tightenAfter previous (tightenAfter previous t) = tightenAfter previous t := by
  induction t generalizing previous with
  | nil => rfl
  | cons c t ih =>
    by_cases space : c = ' '
    · subst space
      rw [tightenAfter_space]
      split
      · rename_i stays
        rw [tightenAfter_space, head?_tightenAfter single.head, if_pos stays, ih single.tail]
      · exact ih single.tail previous
    · rw [tightenAfter_other space, tightenAfter_other space, ih single.tail]

def neighboured (before : Option Char) : Text → List (Option Char × Char × Option Char)
  | [] => []
  | c :: t => (before, c, t.head?) :: neighboured (some c) t

/-- Neither of two neighbours of a space is tight, be it missing, or both are the same operator. -/
def holdsApart (before behind : Option Char) : Bool :=
  (!before.any isTight && !behind.any isTight) || (before.any isFusing && before = behind)

theorem parts_eq_holdsApart (before behind : Option Char) :
    parts before behind = holdsApart before behind := by
  rw [parts, holdsApart, Bool.not_and, Bool.not_or, Bool.not_not]

/-- The characters of a text without the spaces that hold nothing apart. -/
def withoutLooseSpaces (before : Option Char) (t : Text) : Text :=
  ((neighboured before t).filter fun (before, c, behind) =>
    c ≠ ' ' || holdsApart before behind).map fun (_, c, _) => c

theorem tightenAfter_eq_withoutLooseSpaces {t : Text} (single : SingleSpaced t)
    {previous before : Option Char} (agree : t.head? = some ' ' → previous = before) :
    tightenAfter previous t = withoutLooseSpaces before t := by
  induction t generalizing previous before with
  | nil => rfl
  | cons c t ih =>
    by_cases space : c = ' '
    · subst space
      obtain rfl := agree rfl
      rw [tightenAfter_space, parts_eq_holdsApart]
      split
      · rename_i stays
        rw [ih single.tail fun _ => rfl]
        simp [withoutLooseSpaces, neighboured, stays]
      · rename_i goes
        have behind : tightenAfter previous t = withoutLooseSpaces (some ' ') t :=
          ih single.tail fun another => absurd another single.head
        rw [behind]
        simp [withoutLooseSpaces, neighboured, goes]
    · rw [tightenAfter_other space, ih single.tail fun _ => rfl]
      simp [withoutLooseSpaces, neighboured, space]

/-- Tightening takes away spaces alone, and puts no two equal operators side by side that were
apart. Of a text without two spaces in a row it keeps those spaces that hold something apart, and
does nothing more when it is repeated. -/
theorem tighten_keeps_operators_apart (t : Text) :
    Thinned t (tighten t) ∧
      (∀ c, isFusing c → ∀ a b, tighten t = a ++ c :: c :: b →
        ∃ front rest, t = front ++ c :: c :: rest ∧ Thinned front a ∧ Thinned rest b) ∧
      (SingleSpaced t → tighten (tighten t) = tighten t ∧ tighten t = withoutLooseSpaces none t) := by
  refine ⟨thinned_tightenAfter none t, ?_, ?_⟩
  · intro c fusing a b adjacent
    exact adjacent_of_tightenAfter fusing adjacent
  · intro single
    exact ⟨tightenAfter_tightenAfter single none, tightenAfter_eq_withoutLooseSpaces single fun _ => rfl⟩

def formula : Text := "n++ - -a + b / /d/ * ( e ) ; c"

theorem formula_tightened :
    SingleSpaced formula ∧ isFusing '+' ∧
      tighten formula = ['n'] ++ '+' :: '+' :: "- -a+b/ /d/*(e); c".toList ∧
      tighten (tighten formula) = tighten formula ∧
      tighten formula = withoutLooseSpaces none formula ∧
      ∃ front rest, formula = front ++ '+' :: '+' :: rest ∧ Thinned front ['n'] ∧
        Thinned rest "- -a+b/ /d/*(e); c" := by
  have single : SingleSpaced formula := by
    unfold SingleSpaced
    decide +kernel
  have dense : tighten formula = ['n'] ++ '+' :: '+' :: "- -a+b/ /d/*(e); c".toList := by
    decide +kernel
  obtain ⟨-, apart, kept⟩ := tighten_keeps_operators_apart formula
  obtain ⟨again, left⟩ := kept single
  exact ⟨single, rfl, dense, again, left, apart '+' rfl _ _ dense⟩

end ComponentBundle.Bundle
