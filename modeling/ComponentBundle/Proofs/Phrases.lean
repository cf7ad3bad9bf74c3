import ComponentBundle.Module.Line
import ComponentBundle.Proofs.Tiling

/-!
Phrases at line starts. One that is found stands there, and one that stands there is found,
unless an earlier one reaches over its start: white space inside a phrase may hold line ends.
-/
namespace ComponentBundle.Module
open ComponentBundle.Text ComponentBundle.Source

/-- Whether a line starts behind a text. For the empty text `first` tells. -/
def startsLine (first : Bool) (before : Text) : Bool :=
  match before.getLast? with
  | none => first
  | some c => c = '\n'

theorem startsLine_append (first : Bool) (a b : Text) :
    startsLine first (a ++ b) = startsLine (startsLine first a) b := by
  unfold startsLine
  rw [List.getLast?_append]
  cases b.getLast? <;> rfl

theorem startsLine_filled {a : Text} (filled : a ≠ []) (first : Bool) :
    startsLine first a = decide (a.getLast? = some '\n') := by
  rw [startsLine, List.getLast?_eq_some_getLast filled]
  simp

structure Reads {α : Type} (read : Text → Option α) (textOf : α → Text) : Prop where
  split : ∀ {t : Text} {x : α}, read t = some x → ∃ rest, t = textOf x ++ rest
  filled : ∀ {t : Text} {x : α}, read t = some x → textOf x ≠ []

variable {α : Type} {read : Text → Option α} {textOf : α → Text}

theorem phrasesFrom_found (reads : Reads read textOf) {x : α} {rest : Text}
    (found : read (textOf x ++ rest) = some x) (position : Nat) :
    phrasesFrom read textOf true position (textOf x ++ rest)
      = (position, x) :: phrasesFrom read textOf (startsLine true (textOf x))
          (position + width (textOf x)) rest := by
  have filled := reads.filled found
  obtain ⟨c, inside, same⟩ := List.exists_cons_of_ne_nil filled
  have last := startsLine_filled filled true
  rw [same] at found last ⊢
  rw [List.cons_append] at found ⊢
  rw [phrasesFrom, if_pos rfl, found]
  simp only [same, last, List.length_cons, Nat.add_sub_cancel, List.drop_left]

theorem phrasesFrom_other {atStart : Bool} {c : Char} {t : Text}
    (none_ : atStart = true → read (c :: t) = none) (position : Nat) :
    phrasesFrom read textOf atStart position (c :: t)
      = phrasesFrom read textOf (startsLine atStart [c]) (position + c.utf8Size) t := by
  have skipped : (if atStart then read (c :: t) else none) = none := by
    cases atStart with
    | false => rfl
    | true => exact none_ rfl
  rw [phrasesFrom, skipped]
  rfl

theorem phrases_induction {motive : Bool → Nat → Text → Prop} (reads : Reads read textOf)
    (nil : ∀ atStart position, motive atStart position [])
    (found : ∀ position x rest, read (textOf x ++ rest) = some x →
      motive (startsLine true (textOf x)) (position + width (textOf x)) rest →
      motive true position (textOf x ++ rest))
    (other : ∀ atStart position c t, (atStart = true → read (c :: t) = none) →
      motive (startsLine atStart [c]) (position + c.utf8Size) t → motive atStart position (c :: t))
    (atStart : Bool) (position : Nat) (t : Text) : motive atStart position t := by
  induction length : t.length using Nat.strongRecOn generalizing atStart position t with
  | ind n ih =>
    subst length
    cases t with
    | nil => exact nil atStart position
    | cons c t =>
      by_cases here : ∃ x, atStart = true ∧ read (c :: t) = some x
      · obtain ⟨x, rfl, phrase⟩ := here
        obtain ⟨rest, split⟩ := reads.split phrase
        have positive := List.length_pos_iff.2 (reads.filled phrase)
        rw [split] at phrase ih ⊢
        refine found position x rest phrase (ih rest.length ?_ _ _ rest rfl)
        rw [List.length_append]
        omega
      · refine other atStart position c t ?_ (ih t.length (by simp) _ _ t rfl)
        intro first
        rw [Option.eq_none_iff_forall_ne_some]
        exact fun x phrase => here ⟨x, first, phrase⟩

theorem of_mem_phrasesFrom (reads : Reads read textOf) {atStart : Bool} {position place : Nat}
    {t : Text} {x : α} (member : (place, x) ∈ phrasesFrom read textOf atStart position t) :
    ∃ before rest, t = before ++ rest ∧ place = position + width before ∧
      startsLine atStart before ∧ read rest = some x := by
  induction atStart, position, t using phrases_induction reads with
  | nil => simp [phrasesFrom] at member
  | found position y rest phrase ih =>
    rw [phrasesFrom_found reads phrase] at member
    rcases List.mem_cons.1 member with same | later
    · cases same
      exact ⟨[], textOf x ++ rest, rfl, rfl, rfl, phrase⟩
    · obtain ⟨before, behind, rfl, rfl, starts, readBehind⟩ := ih later
      refine ⟨textOf y ++ before, behind, (List.append_assoc ..).symm, ?_, ?_, readBehind⟩
      · rw [width_append, Nat.add_assoc]
      · rw [startsLine_append]
        exact starts
  | other atStart position c t none_ ih =>
    rw [phrasesFrom_other none_] at member
    obtain ⟨before, behind, rfl, rfl, starts, readBehind⟩ := ih member
    refine ⟨c :: before, behind, rfl, ?_, ?_, readBehind⟩
    · rw [width_cons, Nat.add_assoc]
    · rw [← List.singleton_append, startsLine_append]
      exact starts

theorem phrasesFrom_apart (reads : Reads read textOf) (atStart : Bool) (position : Nat) (t : Text) :
    (phrasesFrom read textOf atStart position t).Pairwise
      fun a b => a.1 + width (textOf a.2) ≤ b.1 := by
  induction atStart, position, t using phrases_induction reads with
  | nil => simp [phrasesFrom]
  | found position x rest phrase ih =>
    rw [phrasesFrom_found reads phrase]
    refine List.pairwise_cons.2 ⟨?_, ih⟩
    intro later member
    obtain ⟨before, -, -, place, -, -⟩ := of_mem_phrasesFrom reads member
    rw [place]
    exact Nat.le_add_right ..
  | other atStart position c t none_ ih =>
    rw [phrasesFrom_other none_]
    exact ih

/-- What stands at a line start is found unless something found before reaches over it. -/
theorem mem_phrasesFrom_or_covered (reads : Reads read textOf) {atStart : Bool} {position : Nat}
    {t before rest : Text} {x : α} (split : t = before ++ rest)
    (starts : startsLine atStart before) (phrase : read rest = some x) :
    (position + width before, x) ∈ phrasesFrom read textOf atStart position t ∨
      ∃ place y, (place, y) ∈ phrasesFrom read textOf atStart position t ∧
        place < position + width before ∧ position + width before < place + width (textOf y) := by
  induction atStart, position, t using phrases_induction reads generalizing before with
  | nil atStart position =>
    obtain ⟨-, rfl⟩ := List.append_eq_nil_iff.1 split.symm
    obtain ⟨behind, empty⟩ := reads.split phrase
    exact absurd (List.append_eq_nil_iff.1 empty.symm).1 (reads.filled phrase)
  | found position y behind found ih =>
    rw [phrasesFrom_found reads found]
    have later : ∀ inside, before = textOf y ++ inside → behind = inside ++ rest →
        (position + width before, x) ∈ (position, y) :: phrasesFrom read textOf
            (startsLine true (textOf y)) (position + width (textOf y)) behind ∨
          ∃ place z, (place, z) ∈ (position, y) :: phrasesFrom read textOf
              (startsLine true (textOf y)) (position + width (textOf y)) behind ∧
            place < position + width before ∧ position + width before < place + width (textOf z) := by
      rintro inside rfl rfl
      rw [startsLine_append] at starts
      rw [width_append, ← Nat.add_assoc]
      refine (ih rfl starts).imp (List.mem_cons_of_mem _) ?_
      rintro ⟨place, z, member, low, high⟩
      exact ⟨place, z, List.mem_cons_of_mem _ member, low, high⟩
    rcases List.append_eq_append_iff.1 split with ⟨inside, same, rest_⟩ | ⟨extra, same, rest_⟩
    · exact later inside same rest_
    · by_cases whole : extra = []
      · subst whole
        exact later [] (by simpa using same.symm) (by simpa using rest_.symm)
      · by_cases first : before = []
        · subst first
          rw [List.nil_append] at same
          rw [rest_, ← same, found] at phrase
          left
          rw [Option.some.inj phrase]
          exact List.mem_cons_self
        · right
          have positive := width_pos first
          have more := width_pos whole
          refine ⟨position, y, List.mem_cons_self, by omega, ?_⟩
          rw [same, width_append]
          omega
  | other atStart position c t none_ ih =>
    rw [phrasesFrom_other none_]
    cases before with
    | nil =>
      obtain rfl : atStart = true := starts
      rw [split, List.nil_append] at none_
      rw [none_ rfl] at phrase
      contradiction
    | cons d before =>
      obtain ⟨rfl, rfl⟩ := List.cons.inj split
      rw [← List.singleton_append, startsLine_append] at starts
      rw [width_cons, ← Nat.add_assoc]
      exact ih rfl starts

/-- A phrase at a line start that no phrase before it reaches over. -/
structure StandsAt (read : Text → Option α) (textOf : α → Text) (t before : Text) (x : α) :
    Prop where
  starts : startsLine true before
  here : ∃ rest, t = before ++ rest ∧ read rest = some x
  apart : ∀ earlier rest y, t = earlier ++ rest → startsLine true earlier → read rest = some y →
    width earlier < width before → width earlier + width (textOf y) ≤ width before

theorem StandsAt.atStart {t : Text} {x : α} (here : read t = some x) :
    StandsAt read textOf t [] x where
  starts := rfl
  here := ⟨t, rfl, here⟩
  apart := by
    intro earlier rest y _ _ _ before
    exact absurd before (Nat.not_lt_zero _)

theorem of_mem_phrases (reads : Reads read textOf) {t : Text} {place : Nat} {x : α}
    (member : (place, x) ∈ phrases read textOf t) :
    ∃ before rest, t = before ++ rest ∧ place = width before ∧ startsLine true before ∧
      read rest = some x := by
  obtain ⟨before, rest, split, rfl, starts, found⟩ := of_mem_phrasesFrom reads member
  exact ⟨before, rest, split, Nat.zero_add _, starts, found⟩

theorem StandsAt.mem_phrases (reads : Reads read textOf) {t before : Text} {x : α}
    (h : StandsAt read textOf t before x) : (width before, x) ∈ phrases read textOf t := by
  obtain ⟨rest, split, found⟩ := h.here
  have seen : (0 + width before, x) ∈ phrasesFrom read textOf true 0 t ∨ _ :=
    mem_phrasesFrom_or_covered reads split h.starts found
  rw [Nat.zero_add] at seen
  rcases seen with member | ⟨place, y, member, low, high⟩
  · exact member
  · obtain ⟨earlier, behind, same, rfl, starts, read⟩ := of_mem_phrases reads member
    have := h.apart earlier behind y same starts read low
    omega

theorem phrases_apart (reads : Reads read textOf) {t : Text} {a b : Nat × α}
    (insideA : a ∈ phrases read textOf t) (insideB : b ∈ phrases read textOf t) :
    a = b ∨ a.1 + width (textOf a.2) ≤ b.1 ∨ b.1 + width (textOf b.2) ≤ a.1 := by
  obtain ⟨i, boundI, rfl⟩ := List.getElem_of_mem insideA
  obtain ⟨j, boundJ, rfl⟩ := List.getElem_of_mem insideB
  have apart := List.pairwise_iff_getElem.1 (phrasesFrom_apart reads true 0 t)
  rcases Nat.lt_trichotomy i j with before | rfl | behind
  · exact Or.inr (Or.inl (apart i j boundI boundJ before))
  · exact Or.inl rfl
  · exact Or.inr (Or.inr (apart j i boundJ boundI behind))

end ComponentBundle.Module
