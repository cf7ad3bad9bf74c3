import ComponentBundle.Module.Unit
import ComponentBundle.Proofs.SegmentPlaces

/-!
Code whose brackets are closed in the order of nesting. The search for the end of a group passes
over such code, and the first brace of it is closed within it.
-/
namespace ComponentBundle.Source
open ComponentBundle.Text ComponentBundle.Module

def codeBetween (t : Text) (start stop : Nat) : List (Nat × Char) :=
  (codeFrom t start).filter fun (position, _) => position < stop

theorem codeFrom_apart (t : Text) (start : Nat) :
    (codeFrom t start).Pairwise fun a b => a.1 + a.2.utf8Size ≤ b.1 :=
  (placedCode_apart 0 (lex t)).filter _

theorem mem_codeFrom {t : Text} {start position : Nat} {c : Char} :
    (position, c) ∈ codeFrom t start ↔ (position, c) ∈ codeChars t ∧ start ≤ position := by
  simp [codeFrom]

theorem mem_codeBetween {t : Text} {start stop position : Nat} {c : Char} :
    (position, c) ∈ codeBetween t start stop ↔
      (position, c) ∈ codeChars t ∧ start ≤ position ∧ position < stop := by
  simp [codeBetween, mem_codeFrom, and_assoc]

theorem codeFrom_filter {t : Text} {start later : Nat} (le : start ≤ later) :
    (codeFrom t start).filter (fun (position, _) => later ≤ position) = codeFrom t later := by
  rw [codeFrom, codeFrom, List.filter_filter]
  congr 1
  funext ⟨position, c⟩
  simp only [Bool.and_eq_decide, decide_eq_true_eq, decide_eq_decide]
  omega

theorem filter_eq_self_of_le {code : List (Nat × Char)} {position : Nat}
    (behind : ∀ x ∈ code, position ≤ x.1) :
    code.filter (fun (place, _) => position ≤ place) = code :=
  List.filter_eq_self.2 fun x inside => decide_eq_true (behind x inside)

theorem filter_eq_nil_of_lt {code : List (Nat × Char)} {position : Nat}
    (before : ∀ x ∈ code, x.1 < position) :
    code.filter (fun (place, _) => position ≤ place) = [] :=
  List.filter_eq_nil_iff.2 fun x inside => by simpa using before x inside

theorem codeBetween_append {t : Text} {start stop : Nat} (le : start ≤ stop) :
    codeBetween t start stop ++ codeFrom t stop = codeFrom t start := by
  rw [codeBetween, ← codeFrom_filter le]
  have apart := codeFrom_apart t start
  generalize codeFrom t start = code at apart
  induction code with
  | nil => rfl
  | cons first more ih =>
    obtain ⟨low, apart⟩ := List.pairwise_cons.1 apart
    by_cases before : first.1 < stop
    · rw [List.filter_cons_of_pos (by simpa using before), List.cons_append,
        List.filter_cons_of_neg (by simpa using before), ih apart]
    · have behind : ∀ x ∈ first :: more, stop ≤ x.1 := by
        rw [List.forall_mem_cons]
        refine ⟨Nat.le_of_not_lt before, ?_⟩
        intro x later
        have := low x later
        omega
      rw [filter_eq_self_of_le behind, List.filter_eq_nil_iff.2, List.nil_append]
      intro x inside
      simpa using behind x inside

theorem codeFrom_of_append {t : Text} {start position : Nat} {c : Char}
    {before behind : List (Nat × Char)}
    (split : codeFrom t start = before ++ (position, c) :: behind) :
    codeFrom t position = (position, c) :: behind ∧
      codeFrom t (position + c.utf8Size) = behind := by
  have member : (position, c) ∈ codeFrom t start := by
    rw [split]
    exact List.mem_append_right _ List.mem_cons_self
  have low := (mem_codeFrom.1 member).2
  have apart := codeFrom_apart t start
  rw [split, List.pairwise_append, List.pairwise_cons] at apart
  obtain ⟨-, ⟨later, -⟩, earlier⟩ := apart
  have positive := c.utf8Size_pos
  have passed : ∀ x ∈ before, x.1 < position := by
    intro x inside
    have := earlier x inside _ List.mem_cons_self
    have := x.2.utf8Size_pos
    omega
  constructor
  · rw [← codeFrom_filter low, split, List.filter_append, filter_eq_nil_of_lt passed,
      filter_eq_self_of_le, List.nil_append]
    rw [List.forall_mem_cons]
    refine ⟨Nat.le_refl _, ?_⟩
    intro x inside
    have := later x inside
    omega
  · rw [← codeFrom_filter (Nat.le_add_right_of_le low), split, List.filter_append,
      filter_eq_nil_of_lt, List.filter_cons_of_neg, filter_eq_self_of_le later, List.nil_append]
    · simp only [decide_eq_true_eq]
      omega
    · intro x inside
      have := passed x inside
      omega

theorem codeFrom_cons {t front rest : Text} {c : Char} (split : t = front ++ c :: rest)
    (code : inCode (lex t) (width front)) :
    codeFrom t (width front) = (width front, c) :: codeFrom t (width (front ++ [c])) := by
  have member : (width front, c) ∈ codeFrom t (width front) :=
    mem_codeFrom.2 ⟨mem_codeChars.2 ⟨code, front, rest, split, rfl⟩, Nat.le_refl _⟩
  obtain ⟨before, behind, found⟩ := List.append_of_mem member
  obtain ⟨here, next⟩ := codeFrom_of_append found
  have place : width (front ++ [c]) = width front + c.utf8Size := by simp
  rw [place, next, here]

def codeOf (t front piece : Text) : List (Nat × Char) :=
  codeBetween t (width front) (width (front ++ piece))

theorem codeOf_append (t front a b : Text) :
    codeOf t front (a ++ b) = codeOf t front a ++ codeOf t (front ++ a) b := by
  have second : width (front ++ a) ≤ width (front ++ (a ++ b)) := by
    rw [← List.append_assoc]
    exact width_le_append ..
  have early : (codeBetween t (width front) (width (front ++ a))).filter
      (fun (position, _) => position < width (front ++ (a ++ b)))
        = codeBetween t (width front) (width (front ++ a)) := by
    apply List.filter_eq_self.2
    intro ⟨position, c⟩ inside
    have high := (mem_codeBetween.1 inside).2.2
    exact decide_eq_true (Nat.lt_of_lt_of_le high second)
  rw [codeOf, codeBetween, ← codeBetween_append (width_le_append front a), List.filter_append,
    early, codeOf, codeOf, List.append_assoc]
  rfl

theorem split_of_mem_codeOf {t front piece rest : Text} (split : t = front ++ (piece ++ rest))
    {position : Nat} {c : Char} (h : (position, c) ∈ codeOf t front piece) :
    ∃ lead ending, piece = lead ++ c :: ending ∧ position = width (front ++ lead) := by
  obtain ⟨known, low, high⟩ := mem_codeBetween.1 h
  obtain ⟨-, earlier, behind, cut, rfl⟩ := mem_codeChars.1 known
  obtain ⟨lead, ending, rfl, rfl⟩ := char_of_cut (split.symm.trans cut) low high
  exact ⟨lead, ending, rfl, rfl⟩

/-! Balanced code. -/

def brackets : List (Char × Char) := [('(', ')'), ('[', ']'), ('{', '}')]

def isBracket (c : Char) : Bool := brackets.any fun pair => c = pair.1 || c = pair.2

/-- Each bracket is closed by one of its kind, in the order of nesting. -/
inductive Balanced : List (Nat × Char) → Prop where
  | nil : Balanced []
  | plain {position : Nat} {c : Char} {code : List (Nat × Char)} (free : isBracket c = false)
      (behind : Balanced code) : Balanced ((position, c) :: code)
  | nested {start stop : Nat} {opener closer : Char} {inside code : List (Nat × Char)}
      (pair : (opener, closer) ∈ brackets) (within : Balanced inside) (behind : Balanced code) :
      Balanced ((start, opener) :: (inside ++ (stop, closer) :: code))

theorem closingBrace?_open (depth position : Nat) (more : List (Nat × Char)) :
    closingBrace? depth ((position, '{') :: more) = closingBrace? (depth + 1) more := by
  rw [closingBrace?.eq_def]
  rfl

theorem closingBrace?_inner (depth position : Nat) (more : List (Nat × Char)) :
    closingBrace? (depth + 2) ((position, '}') :: more) = closingBrace? (depth + 1) more := rfl

theorem closingBrace?_other {c : Char} (opens : c ≠ '{') (closes : c ≠ '}') (depth position : Nat)
    (more : List (Nat × Char)) :
    closingBrace? depth ((position, c) :: more) = closingBrace? depth more := by
  rw [closingBrace?.eq_def]
  simp only [if_neg opens, if_neg closes]

theorem closingBrace?_balanced {code : List (Nat × Char)} (balanced : Balanced code) (depth : Nat)
    (more : List (Nat × Char)) :
    closingBrace? (depth + 1) (code ++ more) = closingBrace? (depth + 1) more := by
  induction balanced generalizing depth more with
  | nil => rfl
  | plain free behind ih =>
    simp only [isBracket, brackets, List.any_cons, List.any_nil, Bool.or_eq_false_iff,
      decide_eq_false_iff_not] at free
    rw [List.cons_append, closingBrace?_other free.2.2.1.1 free.2.2.1.2]
    exact ih depth more
  | nested pair within behind within_ behind_ =>
    rw [List.cons_append, List.append_assoc, List.cons_append]
    simp only [brackets, List.mem_cons, List.not_mem_nil, or_false, Prod.mk.injEq] at pair
    rcases pair with ⟨rfl, rfl⟩ | ⟨rfl, rfl⟩ | ⟨rfl, rfl⟩
    · rw [closingBrace?_other (by decide) (by decide), within_,
        closingBrace?_other (by decide) (by decide), behind_]
    · rw [closingBrace?_other (by decide) (by decide), within_,
        closingBrace?_other (by decide) (by decide), behind_]
    · rw [closingBrace?_open, within_, closingBrace?_inner, behind_]

theorem balancedEnd?_balanced {code : List (Nat × Char)} (balanced : Balanced code) {depth : Int}
    (positive : 0 < depth) (more : List (Nat × Char)) :
    balancedEnd? depth (code ++ more) = balancedEnd? depth more := by
  induction balanced generalizing depth more with
  | nil => rfl
  | plain free behind ih =>
    simp only [isBracket, brackets, List.any_cons, List.any_nil, Bool.or_eq_false_iff,
      decide_eq_false_iff_not] at free
    rw [List.cons_append, balancedEnd?]
    simp only [if_neg free.1.1, if_neg free.1.2, if_neg (Int.ne_of_gt positive)]
    exact ih positive more
  | nested pair within behind within_ behind_ =>
    have next : 0 < depth + 1 := by omega
    rw [List.cons_append, List.append_assoc, List.cons_append]
    simp only [brackets, List.mem_cons, List.not_mem_nil, or_false, Prod.mk.injEq] at pair
    rcases pair with ⟨rfl, rfl⟩ | ⟨rfl, rfl⟩ | ⟨rfl, rfl⟩
    · simp only [balancedEnd?, Char.reduceEq, ↓reduceIte, Int.ne_of_gt next, within_ next,
        Int.add_sub_cancel, Int.ne_of_gt positive, behind_ positive]
    · simp only [balancedEnd?, Char.reduceEq, ↓reduceIte, Int.ne_of_gt positive, within_ positive,
        behind_ positive]
    · simp only [balancedEnd?, Char.reduceEq, ↓reduceIte, Int.ne_of_gt positive, within_ positive,
        behind_ positive]

theorem Balanced.first_brace {code : List (Nat × Char)} (balanced : Balanced code)
    (braced : '{' ∈ code.map Prod.snd) :
    ∃ before start inside stop behind,
      code = before ++ (start, '{') :: (inside ++ (stop, '}') :: behind) ∧
      '{' ∉ before.map Prod.snd ∧ Balanced inside := by
  induction balanced with
  | nil => contradiction
  | @plain position c code free behind ih =>
    have other : '{' ≠ c := by
      rintro rfl
      exact absurd free (by decide)
    rw [List.map_cons, List.mem_cons, or_iff_right other] at braced
    obtain ⟨before, start, inside, stop, after, rfl, none_, within⟩ := ih braced
    refine ⟨(position, c) :: before, start, inside, stop, after, rfl, ?_, within⟩
    rw [List.map_cons, List.mem_cons, not_or]
    exact ⟨other, none_⟩
  | @nested start stop opener closer inside code pair within behind within_ behind_ =>
    by_cases first : opener = '{'
    · subst first
      have closes : closer = '}' := by
        simpa [brackets] using pair
      subst closes
      exact ⟨[], start, inside, stop, code, rfl, by simp, within⟩
    · have apart : '{' ≠ closer := by
        rintro rfl
        simp [brackets] at pair
      simp only [List.map_cons, List.map_append, List.mem_cons, List.mem_append, apart, false_or,
        or_iff_right (Ne.symm first)] at braced
      by_cases inner : '{' ∈ inside.map Prod.snd
      · obtain ⟨before, brace, block, closing, after, rfl, none_, blockBalanced⟩ := within_ inner
        refine ⟨(start, opener) :: before, brace, block, closing, after ++ (stop, closer) :: code,
          by simp, ?_, blockBalanced⟩
        rw [List.map_cons, List.mem_cons, not_or]
        exact ⟨Ne.symm first, none_⟩
      · obtain ⟨before, brace, block, closing, after, rfl, none_, blockBalanced⟩ :=
          behind_ (braced.resolve_left inner)
        refine ⟨(start, opener) :: (inside ++ (stop, closer) :: before), brace, block, closing,
          after, by simp, ?_, blockBalanced⟩
        simp only [List.map_cons, List.map_append, List.mem_cons, List.mem_append, not_or]
        exact ⟨Ne.symm first, inner, apart, none_⟩

/-! Whether code is balanced can be computed. -/

def closesAll (awaited : List Char) : List (Nat × Char) → Bool
  | [] => awaited.isEmpty
  | (_, c) :: code =>
    match brackets.lookup c with
    | some closer => closesAll (closer :: awaited) code
    | none =>
      if awaited.head? = some c then closesAll awaited.tail code
      else !isBracket c && closesAll awaited code

theorem lookup_of_free {c : Char} (free : isBracket c = false) : brackets.lookup c = none := by
  apply List.lookup_eq_none_iff.2
  intro pair member
  have other := List.any_eq_false.1 free pair member
  simp only [Bool.or_eq_true, decide_eq_true_eq, not_or] at other
  simpa using other.1

theorem lookup_of_pair : ∀ pair ∈ brackets,
    brackets.lookup pair.1 = some pair.2 ∧ brackets.lookup pair.2 = none ∧ isBracket pair.2 := by
  decide

theorem closesAll_balanced {code : List (Nat × Char)} (balanced : Balanced code)
    {awaited : List Char} (closers : ∀ c ∈ awaited, isBracket c) (more : List (Nat × Char)) :
    closesAll awaited (code ++ more) = closesAll awaited more := by
  induction balanced generalizing awaited more with
  | nil => rfl
  | @plain position c code free behind ih =>
    have other : awaited.head? ≠ some c := by
      intro first
      rw [closers c (List.mem_of_mem_head? first)] at free
      contradiction
    rw [List.cons_append]
    simp only [closesAll, lookup_of_free free, if_neg other, free, ih closers more, Bool.not_false,
      Bool.true_and]
  | @nested start stop opener closer inside code pair within behind within_ behind_ =>
    obtain ⟨opens, closes, bracket⟩ := lookup_of_pair _ pair
    have inner : ∀ c ∈ closer :: awaited, isBracket c := List.forall_mem_cons.2 ⟨bracket, closers⟩
    rw [List.cons_append, List.append_assoc, List.cons_append]
    simp only [closesAll, opens, within_ inner, closes, List.head?_cons, List.tail_cons,
      behind_ closers more, if_true]

theorem closesAll_spec (code : List (Nat × Char)) : (closesAll [] code → Balanced code) ∧
    ∀ closer outer, closesAll (closer :: outer) code → ∃ inside stop rest,
      code = inside ++ (stop, closer) :: rest ∧ Balanced inside ∧ closesAll outer rest := by
  induction length : code.length using Nat.strongRecOn generalizing code with
  | ind n ih =>
    subst length
    cases code with
    | nil => exact ⟨fun _ => .nil, fun closer outer closes => by simp [closesAll] at closes⟩
    | cons x code =>
      obtain ⟨position, c⟩ := x
      have later := ih code.length (by simp) code rfl
      cases opens : brackets.lookup c with
      | some closer =>
        have pair : (c, closer) ∈ brackets := by
          obtain ⟨before, behind, split, -⟩ := List.lookup_eq_some_iff.1 opens
          rw [split]
          simp
        have nested {awaited : List Char} (closes : closesAll awaited ((position, c) :: code)) :
            ∃ inside stop rest, code = inside ++ (stop, closer) :: rest ∧ Balanced inside ∧
              closesAll awaited rest := by
          simp only [closesAll, opens] at closes
          exact later.2 closer awaited closes
        constructor
        · intro closes
          obtain ⟨inside, stop, rest, rfl, within, behind⟩ := nested closes
          exact .nested pair within ((ih rest.length (by simp; omega) rest rfl).1 behind)
        · intro awaited outer closes
          obtain ⟨inside, stop, rest, rfl, within, behind⟩ := nested closes
          obtain ⟨more, place, left, rfl, balanced, rest_⟩ :=
            (ih rest.length (by simp; omega) rest rfl).2 awaited outer behind
          exact ⟨(position, c) :: (inside ++ (stop, closer) :: more), place, left, by simp,
            .nested pair within balanced, rest_⟩
      | none =>
        constructor
        · intro closes
          simp only [closesAll, opens, List.head?_nil, reduceCtorEq, if_false, Bool.and_eq_true,
            Bool.not_eq_true'] at closes
          exact .plain closes.1 (later.1 closes.2)
        · intro closer outer closes
          simp only [closesAll, opens, List.head?_cons, List.tail_cons, Option.some.injEq] at closes
          split at closes
          · rename_i here
            exact ⟨[], position, code, by rw [here]; rfl, .nil, closes⟩
          · simp only [Bool.and_eq_true, Bool.not_eq_true'] at closes
            obtain ⟨inside, stop, rest, rfl, within, behind⟩ := later.2 closer outer closes.2
            exact ⟨(position, c) :: inside, stop, rest, rfl, .plain closes.1 within, behind⟩

theorem balanced_iff_closesAll {code : List (Nat × Char)} : Balanced code ↔ closesAll [] code := by
  refine ⟨fun balanced => ?_, (closesAll_spec code).1⟩
  have none_ : ∀ c ∈ ([] : List Char), isBracket c := by simp
  have passed := closesAll_balanced balanced none_ []
  rwa [List.append_nil] at passed

instance : DecidablePred Balanced := fun _ => decidable_of_iff _ balanced_iff_closesAll.symm

/-- Brackets that are code, with balanced code between them. -/
structure Group (t front : Text) (opener : Char) (inside : Text) (closer : Char) (rest : Text) :
    Prop where
  split : t = front ++ opener :: (inside ++ closer :: rest)
  opened : inCode (lex t) (width front)
  closed : inCode (lex t) (width (front ++ [opener] ++ inside))
  balanced : Balanced (codeOf t (front ++ [opener]) inside)

variable {t front inside rest : Text} {opener closer : Char}

theorem Group.code (group : Group t front opener inside closer rest) :
    codeFrom t (width front) = (width front, opener) :: (codeOf t (front ++ [opener]) inside ++
      (width (front ++ [opener] ++ inside), closer) ::
        codeFrom t (width (front ++ [opener] ++ inside ++ [closer]))) := by
  have ending : t = (front ++ [opener] ++ inside) ++ closer :: rest := by
    rw [group.split]
    simp
  rw [codeFrom_cons group.split group.opened,
    ← codeBetween_append (width_le_append (front ++ [opener]) inside),
    codeFrom_cons ending group.closed, codeOf]

theorem Group.done (group : Group t front opener inside closer rest) :
    t = (front ++ [opener] ++ inside ++ [closer]) ++ rest := by
  rw [group.split]
  simp

theorem Group.braceStop? (group : Group t front '{' inside '}' rest) :
    braceStop? t (width front) = some (width (front ++ ['{'] ++ inside ++ ['}'])) := by
  rw [Source.braceStop?, group.code, closingBrace?_open, closingBrace?_balanced group.balanced,
    width_append _ ['}']]
  rfl

theorem Group.balancedEnd? (group : Group t front '(' inside ')' rest) :
    balancedEnd? 0 (codeFrom t (width front))
      = some (width (front ++ ['('] ++ inside ++ [')'])) := by
  have open_ : (0 : Int) < 0 + 1 := by decide
  rw [group.code, Module.balancedEnd?]
  simp only [↓reduceIte, Int.ne_of_gt open_]
  rw [balancedEnd?_balanced group.balanced open_, width_append _ [')']]
  rfl

theorem find?_brace_eq_none {code : List (Nat × Char)} (free : '{' ∉ code.map Prod.snd) :
    code.find? (fun (_, c) => c = '{') = none := by
  apply List.find?_eq_none.2
  intro x member
  simp only [decide_eq_true_eq]
  intro brace
  exact free (List.mem_map.2 ⟨x, member, brace⟩)

theorem Group.blockEnd? (group : Group t front '{' inside '}' rest) {start : Nat}
    (le : start ≤ width front) (free : '{' ∉ (codeBetween t start (width front)).map Prod.snd) :
    blockEnd? t start = some (width (front ++ ['{'] ++ inside ++ ['}'])) := by
  have first : (codeFrom t start).find? (fun (_, c) => c = '{') = some (width front, '{') := by
    rw [← codeBetween_append le, List.find?_append, find?_brace_eq_none free, Option.none_or,
      group.code]
    rfl
  rw [Module.blockEnd?, first]
  exact group.braceStop?

theorem blockEnd?_of_balanced {start stop : Nat} (le : start ≤ stop)
    (balanced : Balanced (codeBetween t start stop))
    (braced : '{' ∈ (codeBetween t start stop).map Prod.snd) :
    ∃ place, (place, '}') ∈ codeBetween t start stop ∧ blockEnd? t start = some (place + 1) := by
  obtain ⟨before, brace, block, place, behind, split, none_, within⟩ := balanced.first_brace braced
  refine ⟨place, by rw [split]; simp, ?_⟩
  have code : codeFrom t start
      = before ++ (brace, '{') :: (block ++ (place, '}') :: (behind ++ codeFrom t stop)) := by
    rw [← codeBetween_append le, split]
    simp
  have first : (codeFrom t start).find? (fun (_, c) => c = '{') = some (brace, '{') := by
    rw [code, List.find?_append, find?_brace_eq_none none_, Option.none_or,
      List.find?_cons_of_pos rfl]
  rw [Module.blockEnd?, first]
  simp only [Option.bind_some]
  rw [Source.braceStop?, (codeFrom_of_append code).1, closingBrace?_open,
    closingBrace?_balanced within]
  rfl

end ComponentBundle.Source
