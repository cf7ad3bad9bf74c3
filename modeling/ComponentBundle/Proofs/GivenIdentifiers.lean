import ComponentBundle.Proofs.Replacements
import ComponentBundle.Proofs.SharedScope

/-!
Identifiers for a list of paths. Either all of them are given, or the first path of the list
whose identifier has a holder already is told of, together with that holder. An identifier can be
written as a name, whatever the path is.
-/
namespace ComponentBundle.Bundle
open ComponentBundle.Text

/-- What holds the identifier of a path before the path comes: a reserved name, told of by its
    origin, or else an earlier path whose identifier differs in the case of letters at most. -/
inductive Holder (reserved : List (Text × Text)) (earlier : List Text) (path : Text) :
    Text → Prop where
  | reserved {origin : Text} (taken : reserved.lookup (identifierOf path) = some origin) :
      Holder reserved earlier path origin
  | earlier {first : Text} (free : identifierOf path ∉ reserved.map Prod.fst)
      (inside : first ∈ earlier)
      (same : (identifierOf first).map Char.toLower = (identifierOf path).map Char.toLower) :
      Holder reserved earlier path first

/-- The first path of a list whose identifier has a holder. -/
structure RefusedAt (reserved : List (Text × Text)) (paths : List Text) (i : Nat)
    (path holder : Text) : Prop where
  there : paths[i]? = some path
  held : Holder reserved (paths.take i) path holder
  first : ∀ j < i, ∀ other, paths[j]? = some other →
    ∀ origin, ¬ Holder reserved (paths.take j) other origin

def Owns (owners : List (Text × Text)) (earlier : List Text) : Prop :=
  ∀ key path, owners.lookup key = some path ↔
    path ∈ earlier ∧ identifierKey (identifierOf path) = key

variable {reserved owners : List (Text × Text)} {earlier paths more : List Text}
  {path holder first : Text} {problem : Problem} {i : Nat}

theorem Owns.start : Owns [] [] := by
  intro key path
  simp

theorem Owns.next (owns : Owns owners earlier)
    (new : owners.lookup (identifierKey (identifierOf path)) = none) :
    Owns ((identifierKey (identifierOf path), path) :: owners) (earlier ++ [path]) := by
  intro key other
  rw [List.lookup_cons, List.mem_append, List.mem_singleton]
  by_cases same : key = identifierKey (identifierOf path)
  · subst same
    have unowned : ¬ (other ∈ earlier ∧
        identifierKey (identifierOf other) = identifierKey (identifierOf path)) := by
      rw [← owns, new]
      simp
    simp only [beq_self_eq_true, Option.some.injEq]
    constructor
    · rintro rfl
      exact ⟨.inr rfl, rfl⟩
    · rintro ⟨inside | rfl, alike⟩
      · exact absurd ⟨inside, alike⟩ unowned
      · rfl
  · rw [beq_eq_false_iff_ne.2 same]
    dsimp only
    rw [owns]
    constructor
    · rintro ⟨inside, rfl⟩
      exact ⟨.inl inside, rfl⟩
    · rintro ⟨inside | rfl, rfl⟩
      · exact ⟨inside, rfl⟩
      · exact absurd rfl same

theorem Owns.holder_iff (owns : Owns owners earlier) :
    Holder reserved earlier path holder ↔
      (reserved.lookup (identifierOf path)).or
        (owners.lookup (identifierKey (identifierOf path))) = some holder := by
  cases taken : reserved.lookup (identifierOf path) with
  | some origin =>
    rw [Option.some_or, Option.some.injEq]
    constructor
    · rintro (found | free)
      · exact Option.some.inj (taken.symm.trans found)
      · exact absurd (mem_of_lookup taken) free
    · rintro rfl
      exact .reserved taken
  | none =>
    have free := lookup_eq_none_iff_notMem.1 taken
    rw [Option.none_or, owns]
    constructor
    · rintro (found | ⟨-, inside, same⟩)
      · rw [taken] at found
        contradiction
      · exact ⟨inside, same⟩
    · rintro ⟨inside, same⟩
      exact .earlier free inside same

theorem RefusedAt.inside (refused : RefusedAt reserved paths i path holder) : i < paths.length :=
  (List.getElem?_eq_some_iff.1 refused.there).1

/-- The induction goes along the list: the paths before the rest own the keys so far, and none of
    them was refused. -/
theorem distinctFrom_eq_error_iff (owns : Owns owners earlier)
    (given : ∀ j < earlier.length, ∀ other, (earlier ++ paths)[j]? = some other →
      ∀ origin, ¬ Holder reserved ((earlier ++ paths).take j) other origin) :
    distinctFrom reserved owners paths = .error problem ↔
      ∃ i path holder, RefusedAt reserved (earlier ++ paths) i path holder ∧
        problem = .namingCollision (identifierOf path) holder path := by
  induction paths generalizing owners earlier with
  | nil =>
    simp only [distinctFrom, reduceCtorEq, false_iff]
    rintro ⟨i, path, holder, refused, -⟩
    have within := refused.inside
    rw [List.append_nil] at within
    exact given i within path refused.there holder refused.held
  | cons path more ih =>
    have here : (earlier ++ path :: more)[earlier.length]? = some path := by simp
    have before : (earlier ++ path :: more).take earlier.length = earlier := by simp
    rw [distinctFrom_cons_eq_error_iff]
    cases found : (reserved.lookup (identifierOf path)).or
        (owners.lookup (identifierKey (identifierOf path))) with
    | some holder =>
      have held : Holder reserved ((earlier ++ path :: more).take earlier.length) path holder :=
        before.symm ▸ owns.holder_iff.2 found
      constructor
      · rintro rfl
        exact ⟨earlier.length, path, holder, ⟨here, held, given⟩, rfl⟩
      · rintro ⟨i, other, origin, refused, rfl⟩
        have place : i = earlier.length := by
          rcases Nat.lt_trichotomy i earlier.length with early | same | late
          · exact absurd refused.held (given i early other refused.there origin)
          · exact same
          · exact absurd held (refused.first earlier.length late path here holder)
        subst place
        obtain rfl : path = other := Option.some.inj (here.symm.trans refused.there)
        have same := owns.holder_iff.1 (before ▸ refused.held)
        rw [found] at same
        rw [Option.some.inj same]
    | none =>
      have free : ∀ origin, ¬ Holder reserved earlier path origin := by
        intro origin held
        have told := owns.holder_iff.1 held
        rw [found] at told
        contradiction
      have split : earlier ++ path :: more = (earlier ++ [path]) ++ more := by simp
      have new := (Option.or_eq_none_iff.1 found).2
      dsimp only
      rw [split] at given here before ⊢
      refine ih (owns.next new) fun j within other there origin => ?_
      rcases Nat.lt_succ_iff_lt_or_eq.1 (List.length_append ▸ within) with early | rfl
      · exact given j early other there origin
      · obtain rfl : path = other := Option.some.inj (here.symm.trans there)
        rw [before]
        exact free origin

/-- A name in ASCII: letters, digits, underscores and dollar signs, and no digit in front. -/
structure PlainName (name : Text) : Prop where
  filled : name ≠ []
  chars : ∀ c ∈ name, c.toNat < 0x80 ∧ (c.isAlpha ∨ c.isDigit ∨ c = '_' ∨ c = '$')
  head : ∀ c, name.head? = some c → c.isDigit = false

theorem plainName_guarded {name : Text} (chars : ∀ c ∈ name, isIdentifierChar c) :
    PlainName (guarded name) := by
  have plain : ∀ c ∈ name, c.toNat < 0x80 ∧ (c.isAlpha ∨ c.isDigit ∨ c = '_' ∨ c = '$') := by
    intro c inside
    refine ⟨ascii_of_identifierChar (chars c inside), ?_⟩
    simpa [isIdentifierChar, Char.isAlphanum, or_assoc] using chars c inside
  have mark : '_'.toNat < 0x80 ∧ ('_'.isAlpha ∨ '_'.isDigit ∨ '_' = '_' ∨ '_' = '$') := by decide
  have marked (more : Text) : ∀ c, ('_' :: more).head? = some c → c.isDigit = false := by
    intro c first
    obtain rfl : '_' = c := Option.some.inj first
    decide
  cases name with
  | nil => exact ⟨List.cons_ne_nil _ _, List.forall_mem_singleton.2 mark, marked []⟩
  | cons c name =>
    rw [guarded]
    split
    · exact ⟨List.cons_ne_nil _ _, List.forall_mem_cons.2 ⟨mark, plain⟩, marked _⟩
    · rename_i letter
      exact ⟨List.cons_ne_nil _ _, plain, by simpa using letter⟩

/-- All paths get their identifiers exactly if none of these is reserved and no two of them are
    alike but for the case of letters. Else the first path with a holder is told of. And any
    identifier is a name. -/
theorem identifiers_given_or_first_refused (reserved : List (Text × Text)) (paths : List Text) :
    (∀ ids, distinctIdentifiers reserved paths = .ok ids ↔
        ids = paths.map identifierOf ∧
          (∀ path ∈ paths, identifierOf path ∉ reserved.map Prod.fst) ∧
          (paths.map fun path => (identifierOf path).map Char.toLower).Nodup) ∧
      (∀ problem, distinctIdentifiers reserved paths = .error problem ↔
        ∃ i path holder, RefusedAt reserved paths i path holder ∧
          problem = .namingCollision (identifierOf path) holder path) ∧
      ∀ path, PlainName (identifierOf path) := by
  refine ⟨fun ids => distinctIdentifiers_eq_ok_iff, fun problem => ?_, fun path => ?_⟩
  · exact distinctFrom_eq_error_iff Owns.start fun j within => absurd within (Nat.not_lt_zero j)
  · rw [identifierOf_eq]
    refine plainName_guarded fun c inside => ?_
    obtain ⟨d, -, rfl⟩ := List.mem_map.1 inside
    exact (asIdentifierChar_spec d).1

/-- Of three paths the third one has the identifier of the second, but for a letter's case. -/
example : identifierOf "a/b.gjs" = "AB" ∧ identifierOf "ab.gjs" = "Ab" ∧
    distinctIdentifiers [] ["widget.gjs", "a/b.gjs", "ab.gjs"] =
      .error (.namingCollision "Ab" "a/b.gjs" "ab.gjs") := by decide +kernel

end ComponentBundle.Bundle
