import ComponentBundle.Proofs.ClosingReach
import ComponentBundle.Source.Lookup

/-!
A text and what is left of it without its comments, compared character by character. Where a
comment goes, white space or a line end stands in what is left, or nothing follows: no two
characters become neighbours. A comment right behind a backslash is left out of the
comparison, for the backslash would escape another character without it.
-/
namespace ComponentBundle.Source
open ComponentBundle.Text

inductive Stripped : Text → Text → Prop where
  | nil : Stripped [] []
  | keep (c : Char) {a b : Text} (escaped : c = escape → a.head? = b.head?)
      (more : Stripped a b) : Stripped (c :: a) (c :: b)
  | line (inner : Text) {a b : Text} (ends : a.head?.all (· = '\n')) (more : Stripped a b) :
      Stripped ('/' :: '/' :: (inner ++ a)) b
  | block (inner : Text) {a b : Text} (more : Stripped a b) :
      Stripped ('/' :: '*' :: (inner ++ '*' :: '/' :: a))
        (commentResidue ('/' :: '*' :: (inner ++ ['*', '/'])) ++ b)

def isResidue (c : Char) : Bool := c = ' ' || c = '\n'

theorem residue_of_block (inner : Text) :
    commentResidue ('/' :: '*' :: inner) = if '\n' ∈ inner then ['\n'] else [' '] := by
  have starts : startsWith ('/' :: '*' :: inner) ['/', '*'] := rfl
  simp [commentResidue, starts]

theorem afterFirst?_cons_eq_none {needle t : Text} {c : Char} :
    afterFirst? needle (c :: t) = none ↔
      after? needle (c :: t) = none ∧ afterFirst? needle t = none := by
  rw [afterFirst?]
  cases after? needle (c :: t) <;> simp

theorem afterFirst?_none_of_append {needle a : Text} (t : Text)
    (absent : afterFirst? needle (t ++ a) = none) : afterFirst? needle a = none := by
  induction t with
  | nil => exact absent
  | cons c t ih => exact ih (afterFirst?_cons_eq_none.1 absent).2

theorem not_residue_of_name {c : Char} (name : isNameChar c) : isResidue c = false := by
  cases residue : isResidue c with
  | false => rfl
  | true =>
    simp only [isResidue, Bool.or_eq_true, decide_eq_true_eq] at residue
    rcases residue with rfl | rfl <;> contradiction

theorem not_residue_of_start {c : Char} (starts : isNameStart c) : isResidue c = false :=
  not_residue_of_name (isNameChar_of_start starts)

theorem afterQuoted?_none_behind {quote : Char} (quotes : isQuote quote) (body : Text)
    {a : Text} (inLine : '\n' ∉ body)
    (open_ : afterQuoted? quote (body ++ '*' :: '/' :: a) = none) :
    afterQuoted? quote a = none := by
  have plain : '*' ≠ quote ∧ '/' ≠ quote := by
    simp only [isQuote, Bool.or_eq_true, decide_eq_true_eq] at quotes
    rcases quotes with rfl | rfl <;> decide
  have slash : afterQuoted? quote ('/' :: a) = none → afterQuoted? quote a = none := by
    rw [afterQuoted?_cons quotes, if_neg (by decide), if_neg (by decide), if_neg plain.2]
    exact id
  have star : afterQuoted? quote ('*' :: '/' :: a) = none → afterQuoted? quote a = none := by
    rw [afterQuoted?_cons quotes, if_neg (by decide), if_neg (by decide), if_neg plain.1]
    exact slash
  induction length : body.length using Nat.strongRecOn generalizing body with
  | ind n ih =>
    subst length
    cases body with
    | nil => exact star open_
    | cons c body =>
      have behind : '\n' ∉ body := fun inside => inLine (List.mem_cons_of_mem _ inside)
      rw [List.cons_append, afterQuoted?_cons quotes] at open_
      split at open_
      · cases body with
        | nil => exact slash open_
        | cons d body =>
          exact ih body.length (by simp only [List.length_cons]; omega) body
            (fun inside => behind (List.mem_cons_of_mem _ inside)) open_ rfl
      · split at open_
        · rename_i lineEnd
          exact absurd (lineEnd ▸ List.mem_cons_self) inLine
        · split at open_
          · contradiction
          · exact ih body.length (by simp) body behind open_ rfl

namespace Stripped
variable {a b : Text}

theorem of_nil (h : Stripped [] b) : b = [] := by
  cases h
  rfl

theorem of_cons {c : Char} (h : Stripped (c :: a) b) (code : c ≠ '/') :
    ∃ more, b = c :: more ∧ Stripped a more := by
  cases h with
  | keep _ _ more => exact ⟨_, rfl, more⟩
  | line => exact absurd rfl code
  | block => exact absurd rfl code

theorem head_of_line (h : Stripped a b) (ends : a.head?.all (· = '\n')) :
    b.head?.all (· = '\n') := by
  cases a with
  | nil =>
    rw [h.of_nil]
    rfl
  | cons c a =>
    obtain rfl : c = '\n' := by simpa using ends
    obtain ⟨more, rfl, -⟩ := h.of_cons (by decide)
    rfl

theorem head_of_block (inner more : Text) :
    (commentResidue ('/' :: '*' :: inner) ++ more).head?.all isResidue := by
  rw [residue_of_block]
  split <;> rfl

theorem exists_of_head {c : Char} (h : Stripped a (c :: b)) (code : isResidue c = false) :
    ∃ more, a = c :: more ∧ Stripped more b := by
  generalize whole : c :: b = kept at h
  cases h with
  | nil => contradiction
  | keep d _ more =>
    cases whole
    exact ⟨_, rfl, more⟩
  | line inner ends more =>
    have first := more.head_of_line ends
    rw [← whole] at first
    obtain rfl : c = '\n' := by simpa using first
    contradiction
  | @block inner _ kept more =>
    have first := head_of_block (inner ++ ['*', '/']) kept
    rw [← whole] at first
    simp [code] at first

theorem head?_any {p : Char → Bool} (h : Stripped a b) (code : ∀ c, p c → isResidue c = false)
    (starts : b.head?.any p) : a.head?.any p := by
  cases b with
  | nil => contradiction
  | cons c b =>
    obtain ⟨own, rfl, -⟩ := h.exists_of_head (code c starts)
    exact starts

theorem head?_none {p : Char → Bool} (h : Stripped a b) (code : ∀ c, p c → isResidue c = false)
    (other : a.head?.any p = false) : b.head?.any p = false := by
  cases starts : b.head?.any p with
  | false => rfl
  | true =>
    rw [h.head?_any code starts] at other
    contradiction

theorem tails (h : Stripped a b) (heads : a.head? = b.head?) : Stripped a.tail b.tail := by
  cases h with
  | nil => exact .nil
  | keep _ _ more => exact more
  | line inner ends more =>
    have first := more.head_of_line ends
    rw [← heads] at first
    contradiction
  | @block inner _ kept more =>
    have first := head_of_block (inner ++ ['*', '/']) kept
    rw [← heads] at first
    contradiction

theorem append (h : Stripped a b) (inside : Text) (last : Unescaped inside ∨ a.head? = b.head?) :
    Stripped (inside ++ a) (inside ++ b) := by
  induction inside with
  | nil => exact h
  | cons c inside ih =>
    cases inside with
    | nil =>
      refine .keep c (fun escaped => ?_) h
      rcases last with unescaped | same
      · exact absurd (congrArg some escaped) unescaped
      · exact same
    | cons d inside =>
      refine .keep c (fun _ => rfl) (ih ?_)
      rwa [Unescaped, List.getLast?_cons_cons] at last

theorem after? {lead more : Text} (h : Stripped a b) (code : ∀ c ∈ lead, isResidue c = false)
    (starts : Text.after? lead b = some more) :
    ∃ rest, Text.after? lead a = some rest ∧ Stripped rest more := by
  induction lead generalizing a b with
  | nil =>
    obtain rfl := Option.some.inj starts
    exact ⟨a, rfl, h⟩
  | cons c lead ih =>
    obtain rfl := after?_eq_some_iff.1 starts
    obtain ⟨own, rfl, inner⟩ := h.exists_of_head (code c List.mem_cons_self)
    obtain ⟨rest, found, stripped⟩ := ih inner
      (fun d inside => code d (List.mem_cons_of_mem _ inside)) (after?_eq_some_iff.2 rfl)
    exact ⟨rest, by rw [Text.after?, if_pos rfl, found], stripped⟩

theorem afterFirst?_none {needle : Text} (h : Stripped a b) (filled : needle ≠ [])
    (code : ∀ c ∈ needle, isResidue c = false) (absent : afterFirst? needle a = none) :
    afterFirst? needle b = none := by
  induction h with
  | nil => exact absent
  | @keep c a b escaped more ih =>
    obtain ⟨here, later⟩ := afterFirst?_cons_eq_none.1 absent
    refine afterFirst?_cons_eq_none.2 ⟨?_, ih later⟩
    rw [Option.eq_none_iff_forall_ne_some]
    intro rest starts
    obtain ⟨own, found, -⟩ := (Stripped.keep c escaped more).after? code starts
    rw [here] at found
    contradiction
  | line inner ends more ih =>
    exact ih (afterFirst?_none_of_append ('/' :: '/' :: inner) absent)
  | @block inner a b more ih =>
    have later := ih (afterFirst?_none_of_append ('/' :: '*' :: (inner ++ ['*', '/']))
      (by simpa using absent))
    obtain ⟨c, needle, rfl⟩ := List.exists_cons_of_ne_nil filled
    have first := code c List.mem_cons_self
    rw [residue_of_block]
    split <;> refine afterFirst?_cons_eq_none.2 ⟨?_, later⟩ <;>
      · rw [Text.after?, if_neg]
        rintro rfl
        contradiction

theorem afterMustache?_none (h : Stripped a b) (absent : afterMustache? a = none) :
    afterMustache? b = none := by
  have three : ∀ c ∈ ['}', '}', '}'], isResidue c = false := by simp [isResidue]
  have two : ∀ c ∈ ['}', '}'], isResidue c = false := by simp [isResidue]
  by_cases third : ∃ more, b = '{' :: more
  · obtain ⟨more, rfl⟩ := third
    obtain ⟨own, rfl, inner⟩ := h.exists_of_head (by decide)
    exact inner.afterFirst?_none (by simp) three absent
  · have other : ∀ more, a ≠ '{' :: more := by
      rintro own rfl
      obtain ⟨more, rfl, -⟩ := h.of_cons (by decide)
      exact third ⟨more, rfl⟩
    rw [afterMustache?_of_two other] at absent
    rw [afterMustache?_of_two fun more same => third ⟨more, same⟩]
    exact h.afterFirst?_none (by simp) two absent

theorem afterQuoted?_none {quote : Char} (quotes : isQuote quote) (h : Stripped a b)
    (absent : afterQuoted? quote a = none) : afterQuoted? quote b = none := by
  -- not along `Stripped`, for a backslash takes two characters at once
  induction length : a.length using Nat.strongRecOn generalizing a b with
  | ind n ih =>
    subst length
    cases h with
    | nil => exact absent
    | @keep c a b escaped more =>
      rw [afterQuoted?_cons quotes] at absent ⊢
      split
      · rename_i escape_
        rw [if_pos escape_] at absent
        refine ih a.tail.length ?_ (more.tails (escaped escape_)) absent rfl
        simp only [List.length_tail, List.length_cons]
        omega
      · rename_i plain
        rw [if_neg plain] at absent
        split
        · rfl
        · rename_i inLine
          rw [if_neg inLine] at absent
          split
          · rename_i closes
            rw [if_pos closes] at absent
            contradiction
          · rename_i inside
            rw [if_neg inside] at absent
            exact ih a.length (by simp) more absent rfl
    | @line inner a b ends more =>
      have first := more.head_of_line ends
      cases b with
      | nil => rfl
      | cons c b =>
        obtain rfl : c = '\n' := by simpa using first
        rw [afterQuoted?_cons quotes, if_neg (by decide), if_pos rfl]
    | @block inner a b more =>
      rw [residue_of_block]
      split
      · rw [List.singleton_append, afterQuoted?_cons quotes, if_neg (by decide), if_pos rfl]
      · rename_i inLine
        have behind : afterQuoted? quote a = none := by
          refine afterQuoted?_none_behind quotes ('/' :: '*' :: inner) ?_ absent
          simpa using inLine
        have space : ' ' ≠ quote := by
          rintro rfl
          contradiction
        rw [List.singleton_append, afterQuoted?_cons quotes, if_neg (by decide), if_neg (by decide),
          if_neg space]
        exact ih a.length (by simp; omega) more behind rfl

theorem quotesAlike (h : Stripped a b) : QuotesAlike a b := fun _ inside quotes unescaped absent =>
  afterQuoted?_none quotes (h.append inside (Or.inl unescaped)) absent

theorem afterDottedName_eq_self (h : Stripped a b) (ends : afterDottedName a = a) :
    afterDottedName b = b := by
  cases b with
  | nil => rfl
  | cons c b =>
    have shorter (t : Text) : afterDottedName t ≠ c :: t := by
      intro same
      have := (afterDottedName_suffix t).length_le
      rw [same, List.length_cons] at this
      omega
    rw [afterDottedName, if_neg, if_neg]
    · intro member
      rw [Bool.and_eq_true, decide_eq_true_eq] at member
      obtain ⟨rfl, starts⟩ := member
      obtain ⟨own, rfl, inner⟩ := h.exists_of_head (by decide)
      refine shorter own ?_
      rw [afterDottedName, if_neg (by decide), if_pos] at ends
      · exact ends
      · rw [Bool.and_eq_true, decide_eq_true_eq]
        exact ⟨rfl, inner.head?_any (fun _ => not_residue_of_start) starts⟩
    · intro name
      obtain ⟨own, rfl, inner⟩ := h.exists_of_head (not_residue_of_name name)
      rw [afterDottedName, if_pos name] at ends
      exact shorter own ends

end Stripped

end ComponentBundle.Source
