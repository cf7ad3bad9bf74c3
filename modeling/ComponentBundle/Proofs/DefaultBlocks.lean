import ComponentBundle.Proofs.BalancedCode
import ComponentBundle.Proofs.Declarations
import ComponentBundle.Proofs.ExportWords

/-!
Functions and classes that a default marker exports. A function ends with the block behind its
parameters. A class ends with its first block, so what it extends must not hold one.
-/
namespace ComponentBundle.Module
open ComponentBundle.Text ComponentBundle.Source ComponentBundle.Bundle

/-! The default marker. -/

/-- The form of a default marker in front of `rest`. -/
structure DefaultMarker.Formed (marker : DefaultMarker) (rest : Text) : Prop where
  indent : ∀ c ∈ marker.indent, isIndent c
  words : ∃ exporting gap, marker.words = exporting ++ (defaultWord ++ gap) ∧
    Spaced exportWord exporting ∧ (∀ c ∈ gap, isBlank c) ∧ atWordEnd (gap ++ rest)
  stops : rest.head?.any isBlank = false

theorem defaultMarker?_spec {t : Text} {marker : DefaultMarker}
    (h : defaultMarker? t = some marker) : ∃ rest, t = marker.text ++ rest ∧ marker.Formed rest := by
  simp only [defaultMarker?, bind, Option.bind_eq_some_iff, Prod.exists, spacedWord?_eq_some_iff,
    word?_eq_some_iff] at h
  obtain ⟨exporting, behind, ⟨spaced, -, keywordSplit⟩, _, left, ⟨rfl, wordSplit⟩, result⟩ := h
  obtain ⟨indentSplit, indent_, -⟩ := indentation_spec t
  obtain ⟨gapSplit, gapBlank, stops⟩ := blanks_spec left
  split at result
  · rename_i ends
    obtain rfl := Option.some.inj result
    refine ⟨(blanks left).2, ?_, indent_, ⟨exporting, _, rfl, spaced, gapBlank, ?_⟩, stops⟩
    · simp only [DefaultMarker.text, List.append_assoc]
      rw [← gapSplit, ← wordSplit, ← keywordSplit, ← indentSplit]
    · rwa [← gapSplit]
  · contradiction

theorem DefaultMarker.Formed.read {marker : DefaultMarker} {rest : Text}
    (formed : marker.Formed rest) : defaultMarker? (marker.text ++ rest) = some marker := by
  obtain ⟨exporting, gap, words, spaced, blank, ends⟩ := formed.words
  have keyword : spacedWord? exportWord (exporting ++ (defaultWord ++ (gap ++ rest)))
      = some (exporting, defaultWord ++ (gap ++ rest)) :=
    spacedWord?_eq_some_iff.2 ⟨spaced, rfl, rfl⟩
  have word : word? defaultWord (defaultWord ++ (gap ++ rest)) = some (defaultWord, gap ++ rest) :=
    word?_eq_some_iff.2 ⟨rfl, rfl⟩
  have outside : (exporting ++ (defaultWord ++ (gap ++ rest))).head?.any isIndent = false := by
    obtain ⟨space, same, -, -⟩ := spaced
    rw [same]
    rfl
  simp only [DefaultMarker.text, words, List.append_assoc, defaultMarker?,
    indentation_append formed.indent outside, keyword, bind, Option.bind_some, word, if_pos ends,
    blanks_append blank formed.stops]
  rw [← words]
  rfl

theorem reads_defaultMarker : Reads defaultMarker? DefaultMarker.text where
  split := by
    intro t marker h
    obtain ⟨rest, split, -⟩ := defaultMarker?_spec h
    exact ⟨rest, split⟩
  filled := by
    intro t marker h empty
    obtain ⟨rest, -, formed⟩ := defaultMarker?_spec h
    obtain ⟨exporting, gap, words, -⟩ := formed.words
    simp only [DefaultMarker.text, List.append_eq_nil_iff, words] at empty
    exact absurd empty.2.2.1 (by decide)

/-- The first default marker that is code, with what it exports behind it. One at the start of a
text always is the first. -/
structure DefaultAt (t before : Text) (marker : DefaultMarker) (value : Text) : Prop where
  split : t = before ++ (marker.text ++ value)
  formed : marker.Formed value
  first : before = [] ∨ defaultMarkerIn? t (lex t) = some (width before, marker)

theorem DefaultAt.found {t before value : Text} {marker : DefaultMarker}
    (h : DefaultAt t before marker value) :
    defaultMarkerIn? t (lex t) = some (width before, marker) := by
  rcases h.first with rfl | found
  · have here := phrasesFrom_found reads_defaultMarker h.formed.read 0
    rw [← List.nil_append (marker.text ++ value), ← h.split] at here
    have code : inCode (lex t) (width marker.indent) := by
      obtain ⟨exporting, gap, words, ⟨space, rfl, -⟩, -⟩ := h.formed.words
      have cut : t = marker.indent ++ 'e' :: (exportWord.tail ++ (space ++
          (defaultWord ++ (gap ++ value)))) := by
        rw [h.split, DefaultMarker.text, words]
        simp [exportWord]
      apply inCode_of_leading cut
      rw [List.forall_mem_append, List.forall_mem_singleton]
      refine ⟨?_, by decide⟩
      intro c inside
      have small := h.formed.indent c inside
      simp only [isIndent, Bool.or_eq_true, decide_eq_true_eq] at small
      rcases small with rfl | rfl <;> decide
    rw [defaultMarkerIn?, phrases, here, List.find?_cons_of_pos]
    · rfl
    · simpa using code
  · exact found

/-! The heads of functions and classes. -/

/-- A name as the readers of declarations take it. -/
structure Named (name : Text) : Prop where
  start : name.head?.any isNameStart
  chars : ∀ c ∈ name.tail, continuesName c

theorem name?_eq_some_iff {t : Text} {r : Reading} : name? t = some r ↔
    Named r.1 ∧ r.2.head?.any continuesName = false ∧ t = r.1 ++ r.2 := by
  obtain ⟨name, rest⟩ := r
  constructor
  · intro h
    obtain ⟨split, -⟩ := name?_spec h
    cases t with
    | nil => contradiction
    | cons c t =>
      rw [name?] at h
      split at h
      · rename_i start
        obtain ⟨rfl, rfl⟩ := Prod.mk.inj (Option.some.inj h)
        exact ⟨⟨start, fun d inside => List.mem_takeWhile_imp inside⟩, head?_dropWhile_any _ t,
          split⟩
      · contradiction
  · rintro ⟨⟨start, chars⟩, stops, rfl⟩
    cases name with
    | nil => contradiction
    | cons c name =>
      have start_ : isNameStart c := start
      have used := takeWhile_append_of_head chars stops
      have left := dropWhile_append_of_head chars stops
      simp only [List.tail_cons] at used left
      change (name ++ rest).takeWhile (fun d => isWord d || d = '$') = name at used
      change (name ++ rest).dropWhile (fun d => isWord d || d = '$') = rest at left
      rw [List.cons_append, name?, if_pos start_]
      simp only [used, left]

theorem name?_eq_none {t : Text} (other : t.head?.any isNameStart = false) : name? t = none := by
  cases t with
  | nil => rfl
  | cons c t =>
    rw [name?, if_neg]
    simpa using other

def MaybeNamed (name : Option Text) (t : Text) : Prop :=
  (name = none ∧ t = []) ∨
    ∃ word gap, name = some word ∧ Named word ∧ t = word ++ gap ∧ ∀ c ∈ gap, isBlank c

/-- The head of a function through the opening bracket, generator or not, with a name or none. -/
structure FunctionHead.Formed (head : FunctionHead) : Prop where
  asynchrony : MaybeSpaced asyncWord head.asynchrony
  text : ∃ gap space named, head.text = head.asynchrony ++ (functionWord ++ (gap ++ (head.star ++
      (space ++ (named ++ ['(']))))) ∧ (∀ c ∈ gap, isBlank c) ∧ (∀ c ∈ space, isBlank c) ∧
    (head.star = [] ∧ space = [] ∨ head.star = ['*']) ∧ MaybeNamed head.name named

theorem blanks_of_visible {t : Text} (stops : t.head?.any isBlank = false) : blanks t = ([], t) :=
  blanks_append (List.forall_mem_nil _) stops

theorem optionalName_spec {t : Text} (stops : t.head?.any isBlank = false) {name rest : Text}
    (read : optionalReading name? t = (name, rest)) :
    t = name ++ ((blanks rest).1 ++ (blanks rest).2) ∧
      MaybeNamed (if name.isEmpty then none else some name) (name ++ (blanks rest).1) := by
  obtain ⟨split, blank, -⟩ := blanks_spec rest
  rw [← split]
  cases found : name? t with
  | none =>
    rw [optionalReading_none found] at read
    obtain ⟨rfl, rfl⟩ := Prod.mk.inj read
    refine ⟨rfl, Or.inl ⟨rfl, ?_⟩⟩
    rw [blanks_of_visible stops]
    rfl
  | some r =>
    rw [optionalReading_some found] at read
    obtain ⟨named, -, whole⟩ := name?_eq_some_iff.1 found
    rw [read] at named whole
    have filled : name.isEmpty = false := by
      cases name with
      | nil => exact absurd named.start (by simp)
      | cons => rfl
    rw [filled]
    exact ⟨whole, Or.inr ⟨name, _, rfl, named, rfl, blank⟩⟩

theorem optionalName_append {name : Option Text} {named rest : Text} (form : MaybeNamed name named)
    (bracket : rest.head? = some '(') : ∃ word gap, named = word ++ gap ∧
      optionalReading name? (named ++ rest) = (word, gap ++ rest) ∧
      (blanks (gap ++ rest)) = (gap, rest) ∧ (if word.isEmpty then none else some word) = name ∧
      (named ++ rest).head?.any isBlank = false ∧ (named ++ rest).head? ≠ some '*' := by
  have stops : rest.head?.any isBlank = false := by
    rw [bracket]
    rfl
  rcases form with ⟨rfl, rfl⟩ | ⟨word, gap, rfl, form, rfl, blank⟩
  · refine ⟨[], [], rfl, ?_, blanks_of_visible stops, rfl, stops, ?_⟩
    · apply optionalReading_none
      apply name?_eq_none
      rw [List.nil_append, bracket]
      rfl
    · rw [List.nil_append, bracket]
      decide
  · obtain ⟨c, more, rfl⟩ : ∃ c more, word = c :: more := by
      cases word with
      | nil => exact absurd form.start (by decide)
      | cons c more => exact ⟨c, more, rfl⟩
    have start : isNameStart c := form.start
    refine ⟨c :: more, gap, rfl, ?_, blanks_append blank stops, rfl, ?_, ?_⟩
    · apply optionalReading_some
      refine name?_eq_some_iff.2 ⟨form, ?_, List.append_assoc ..⟩
      cases gap with
      | nil =>
        rw [List.nil_append, bracket]
        decide
      | cons d gap => exact not_continuesName_of_blank (blank d List.mem_cons_self)
    · exact isBlank_of_isNameStart start
    · rw [List.cons_append, List.cons_append, List.head?_cons]
      rintro ⟨rfl⟩
      exact absurd start (by decide)

theorem functionHead?_spec {t : Text} {head : FunctionHead} (h : functionHead? t = some head) :
    head.Formed ∧ ∃ rest, t = head.text ++ rest := by
  simp only [functionHead?, bind, Option.bind_eq_some_iff, Prod.exists, word?_eq_some_iff,
    pure] at h
  obtain ⟨_, u, ⟨rfl, wordSplit⟩, _, rest, ⟨rfl, bracketSplit⟩, same⟩ := h
  obtain ⟨asyncSplit, maybe⟩ := optionalWord_spec asyncWord t
  obtain ⟨gapSplit, gapBlank, gapStops⟩ := blanks_spec u
  generalize blanks u = read at *
  obtain ⟨gap, starred⟩ := read
  obtain ⟨starSplit, star_⟩ := optionalChar_spec '*' starred
  generalize optionalChar '*' starred = read at *
  obtain ⟨star, spaced⟩ := read
  obtain ⟨spaceSplit, spaceBlank, spaceStops⟩ := blanks_spec spaced
  have starless : star = [] ∧ (blanks spaced).1 = [] ∨ star = ['*'] := by
    refine star_.imp_left ?_
    rintro rfl
    refine ⟨rfl, ?_⟩
    obtain rfl : starred = spaced := starSplit
    rw [blanks_of_visible gapStops]
  generalize blanks spaced = read at *
  obtain ⟨space, left⟩ := read
  cases named : optionalReading name? left with
  | mk name behind =>
    obtain ⟨nameSplit, form⟩ := optionalName_spec spaceStops named
    rw [named] at same bracketSplit
    obtain rfl := Option.some.inj same
    refine ⟨⟨maybe, gap, space, _, by simp, gapBlank, spaceBlank, starless, form⟩, rest, ?_⟩
    simp only [List.append_assoc] at *
    rw [← bracketSplit, ← nameSplit, ← spaceSplit, ← starSplit, ← gapSplit, ← wordSplit,
      ← asyncSplit]

theorem FunctionHead.Formed.read {head : FunctionHead} (formed : head.Formed) (rest : Text) :
    functionHead? (head.text ++ rest) = some head := by
  obtain ⟨asynchrony, star, name, text⟩ := head
  obtain ⟨gap, space, named, same, gapBlank, spaceBlank, star_, form⟩ := formed.text
  dsimp only at same star_ form
  have bracket : ('(' :: rest).head? = some '(' := rfl
  obtain ⟨word, behind, rfl, nameRead, behindRead, name_, visible, other⟩ :=
    optionalName_append form bracket
  generalize tail : word ++ behind ++ '(' :: rest = left at nameRead visible other
  have asyncRead : optionalReading (spacedWord? asyncWord)
      (asynchrony ++ (functionWord ++ (gap ++ (star ++ (space ++ left)))))
        = (asynchrony, functionWord ++ (gap ++ (star ++ (space ++ left)))) :=
    optionalWord_append (d := 'f') formed.asynchrony rfl (by decide) (by decide)
  have wordRead : word? functionWord (functionWord ++ (gap ++ (star ++ (space ++ left))))
      = some (functionWord, gap ++ (star ++ (space ++ left))) := word?_eq_some_iff.2 ⟨rfl, rfl⟩
  have starRead : blanks (gap ++ (star ++ (space ++ left))) = (gap, star ++ (space ++ left)) ∧
      optionalChar '*' (star ++ (space ++ left)) = (star, space ++ left) := by
    rcases star_ with ⟨rfl, rfl⟩ | rfl
    · refine ⟨blanks_append gapBlank visible, ?_⟩
      cases left with
      | nil => rfl
      | cons c left => exact optionalStar_none rfl fun star => other (congrArg some star)
    · exact ⟨blanks_append gapBlank rfl, rfl⟩
  have bracketRead : word? ['('] ('(' :: rest) = some (['('], rest) := rfl
  have whole : text ++ rest
      = asynchrony ++ (functionWord ++ (gap ++ (star ++ (space ++ left)))) := by
    rw [same, ← tail]
    simp
  rw [whole, functionHead?, asyncRead]
  simp only [bind, Option.bind_some, wordRead, starRead, blanks_append spaceBlank visible, nameRead,
    behindRead, bracketRead, name_, pure, Option.some.injEq, FunctionHead.mk.injEq, true_and]
  rw [same]
  simp

/-- What stands between the name of a class and its block: white space, or what it extends. -/
inductive Heritage : Text → Prop where
  | none (gap : Text) (blank : ∀ c ∈ gap, isBlank c) : Heritage gap
  | extending (gap parent : Text) (filled : gap ≠ []) (blank : ∀ c ∈ gap, isBlank c)
      (ends : parent.head?.any continuesName = false) : Heritage (gap ++ (extendsWord ++ parent))

theorem functionHead?_class (behind : Text) : functionHead? (classWord ++ behind) = none := by
  have first : (classWord ++ behind).head? = some 'c' := rfl
  have asyncRead : optionalReading (spacedWord? asyncWord) (classWord ++ behind)
      = ([], classWord ++ behind) :=
    optionalReading_none (spacedWord?_eq_none_of_head first (by decide))
  have away : word? functionWord (classWord ++ behind) = none := by
    rw [word?, functionWord, after?_eq_none_of_head first (by decide)]
    rfl
  rw [functionHead?, asyncRead]
  simp only [bind, Option.bind_none, away]

theorem exportedExpression_class {t front behind : Text}
    (split : t = front ++ (classWord ++ behind)) (starts : startsClass behind) :
    exportedExpression t (width front) = classValue t (width front) behind := by
  have word : after? classWord (classWord ++ behind) = some behind := after?_eq_some_iff.2 rfl
  rw [exportedExpression, split, dropWidth_width_append, functionHead?_class]
  simp only [word, starts, if_true]

theorem Heritage.head {heritage : Text} (form : Heritage heritage) (behind : Text) :
    ∃ c more, heritage ++ '{' :: behind = c :: more ∧ (isBlank c ∨ c = '{') := by
  cases form with
  | none _ blank =>
    cases heritage with
    | nil => exact ⟨'{', behind, rfl, Or.inr rfl⟩
    | cons c more => exact ⟨c, _, rfl, Or.inl (blank c List.mem_cons_self)⟩
  | extending gap parent filled blank ends =>
    obtain ⟨c, more, rfl⟩ := List.exists_cons_of_ne_nil filled
    exact ⟨c, _, rfl, Or.inl (blank c List.mem_cons_self)⟩

theorem Heritage.whole {heritage : Text} (form : Heritage heritage) (behind : Text) :
    (heritage ++ '{' :: behind).head?.any continuesName = false := by
  obtain ⟨c, more, split, opens⟩ := form.head behind
  rw [split, List.head?_cons, Option.any_some]
  rcases opens with blank | rfl
  · exact not_continuesName_of_blank blank
  · decide

/-- A name that stands behind the word of a class, in front of `more`. -/
structure ClassName (gap name more : Text) : Prop where
  filled : gap ≠ []
  blank : ∀ c ∈ gap, isBlank c
  named : Named name
  whole : more.head?.any continuesName = false

theorem ClassName.read {gap name more : Text} (h : ClassName gap name more) :
    blanks (gap ++ (name ++ more)) = (gap, name ++ more) ∧ gap.isEmpty = false ∧
      name? (name ++ more) = some (name, more) := by
  have visible : (name ++ more).head?.any isBlank = false := by
    cases name with
    | nil => exact absurd h.named.start (by decide)
    | cons c name => exact isBlank_of_isNameStart h.named.start
  exact ⟨blanks_append h.blank visible, by simpa using h.filled,
    name?_eq_some_iff.2 ⟨h.named, h.whole, rfl⟩⟩

theorem ClassName.unique {gap name more gap' name' more' : Text} (h : ClassName gap name more)
    (h' : ClassName gap' name' more') (same : gap ++ (name ++ more) = gap' ++ (name' ++ more')) :
    gap = gap' ∧ name = name' ∧ more = more' := by
  obtain ⟨opening, -, read⟩ := h.read
  obtain ⟨opening', -, read'⟩ := h'.read
  rw [same, opening'] at opening
  obtain ⟨rfl, shown⟩ := Prod.mk.inj opening
  rw [← shown, read'] at read
  obtain ⟨rfl, rfl⟩ := Prod.mk.inj (Option.some.inj read)
  exact ⟨rfl, rfl, rfl⟩

theorem classValue_cases (t front left : Text) :
    (∃ gap name more, left = gap ++ (name ++ more) ∧ ClassName gap name more ∧
      name ≠ extendsWord ∧ classValue t (width front) left
        = blockValue t classWord (width (front ++ (classWord ++ (gap ++ name))))
            (blockEnd? t (width (front ++ (classWord ++ (gap ++ name))))) (some name)) ∨
    ((∀ gap name more, left = gap ++ (name ++ more) → ClassName gap name more →
      name = extendsWord) ∧ classValue t (width front) left
        = blockValue t classWord (width (front ++ classWord))
            (blockEnd? t (width (front ++ classWord))) none) := by
  obtain ⟨gapSplit, blank, -⟩ := blanks_spec left
  generalize first : blanks left = read at gapSplit blank
  obtain ⟨gap, shown⟩ := read
  simp only [classValue, first]
  cases found : if gap.isEmpty then none else name? shown with
  | none =>
    refine Or.inr ⟨?_, by rw [width_append]⟩
    intro gap' name more same named
    obtain ⟨opening, filled, read⟩ := named.read
    rw [← same, first] at opening
    obtain ⟨rfl, rfl⟩ := Prod.mk.inj opening
    rw [filled, read] at found
    contradiction
  | some r =>
    obtain ⟨name, more⟩ := r
    obtain ⟨filled, read⟩ := Option.ite_none_left_eq_some.1 found
    obtain ⟨named, whole, rfl⟩ := name?_eq_some_iff.1 read
    have here : ClassName gap name more := ⟨by simpa using filled, blank, named, whole⟩
    by_cases extending : name = extendsWord
    · refine Or.inr ⟨?_, by simp only [if_pos extending, width_append]⟩
      intro gap' name' more' same named'
      rw [← (here.unique named' (gapSplit.symm.trans same)).2.1, extending]
    · refine Or.inl ⟨gap, name, more, gapSplit, here, extending, ?_⟩
      simp only [if_neg extending, width_append, Nat.add_assoc]

theorem exportedExpression_named {t front gap name more : Text}
    (split : t = front ++ (classWord ++ (gap ++ (name ++ more)))) (here : ClassName gap name more)
    (other : name ≠ extendsWord) :
    exportedExpression t (width front)
      = blockValue t classWord (width (front ++ (classWord ++ (gap ++ name))))
          (blockEnd? t (width (front ++ (classWord ++ (gap ++ name))))) (some name) := by
  have starts : startsClass (gap ++ (name ++ more)) := by
    obtain ⟨c, space, rfl⟩ := List.exists_cons_of_ne_nil here.filled
    have first : isBlank c := here.blank c List.mem_cons_self
    simp [startsClass, first]
  rw [exportedExpression_class split starts]
  rcases classValue_cases t front (gap ++ (name ++ more)) with
    ⟨gap', name', more', same, named, -, value⟩ | ⟨free, -⟩
  · obtain ⟨rfl, rfl, -⟩ := here.unique named same
    exact value
  · exact absurd (free gap name more rfl here) other

theorem Heritage.free {heritage behind gap name more : Text} (form : Heritage heritage)
    (same : heritage ++ '{' :: behind = gap ++ (name ++ more)) (here : ClassName gap name more) :
    name = extendsWord := by
  cases form with
  | none _ blank =>
    have opening := here.read.1
    rw [← same, blanks_append blank rfl] at opening
    have shown := (Prod.mk.inj opening).2
    have read := here.read.2.2
    rw [← shown, name?_eq_none rfl] at read
    contradiction
  | extending space parent filled blank ends =>
    have named : Named extendsWord := ⟨by decide, List.all_eq_true.1 (by decide +kernel)⟩
    have whole : (parent ++ '{' :: behind).head?.any continuesName = false := by
      cases parent with
      | nil => exact (by decide : continuesName '{' = false)
      | cons c parent => exact ends
    rw [List.append_assoc, List.append_assoc] at same
    exact (here.unique ⟨filled, blank, named, whole⟩ same.symm).2.1

theorem exportedExpression_unnamed {t front heritage behind : Text}
    (split : t = front ++ (classWord ++ (heritage ++ '{' :: behind))) (form : Heritage heritage) :
    exportedExpression t (width front)
      = blockValue t classWord (width (front ++ classWord))
          (blockEnd? t (width (front ++ classWord))) none := by
  have starts : startsClass (heritage ++ '{' :: behind) := by
    obtain ⟨c, more, head, opens⟩ := form.head behind
    rw [head]
    simpa [startsClass] using opens
  rw [exportedExpression_class split starts]
  rcases classValue_cases t front (heritage ++ '{' :: behind) with
    ⟨gap, name, more, same, named, other, -⟩ | ⟨-, value⟩
  · exact absurd (form.free same named) other
  · exact value

/-- A function or class in front of its block, as it is written behind `front` and without its
name. All brackets of the parameters are closed, and so are those of what a class extends. -/
inductive BlockHead (t front : Text) : (written anonymous : Text) → (name : Option Text) →
    Prop where
  | function {head : FunctionHead} {opening params between rest : Text} (formed : head.Formed)
      (bracket : head.text = opening ++ ['('])
      (group : Group t (front ++ opening) '(' params ')' rest)
      (free : '{' ∉ (codeOf t (front ++ (head.text ++ (params ++ [')']))) between).map Prod.snd) :
      BlockHead t front (head.text ++ (params ++ ')' :: between))
        (head.anonymous ++ (params ++ ')' :: between)) head.name
  | named {gap name heritage : Text} (filled : gap ≠ []) (blank : ∀ c ∈ gap, isBlank c)
      (named : Named name) (other : name ≠ extendsWord) (form : Heritage heritage)
      (balanced : Balanced (codeOf t (front ++ (classWord ++ (gap ++ name))) heritage)) :
      BlockHead t front (classWord ++ (gap ++ (name ++ heritage))) (classWord ++ heritage)
        (some name)
  | unnamed {heritage : Text} (form : Heritage heritage)
      (balanced : Balanced (codeOf t (front ++ classWord) heritage)) :
      BlockHead t front (classWord ++ heritage) (classWord ++ heritage) none

theorem Named.braceless {name : Text} (named : Named name) : '{' ∉ name := by
  cases name with
  | nil => simp
  | cons c name =>
    have start : isNameStart c := named.start
    rw [List.mem_cons, not_or]
    constructor
    · rintro rfl
      exact absurd start (by decide)
    · intro inside
      exact absurd (named.chars '{' inside) (by decide)

theorem isName_of_brace {t : Text} (brace : '{' ∈ t) : isName t = false := by
  cases read : name? t with
  | none => rw [isName, read]
  | some r =>
    obtain ⟨name, rest⟩ := r
    obtain ⟨named, -, rfl⟩ := name?_eq_some_iff.1 read
    cases rest with
    | nil =>
      rw [List.append_nil] at brace
      exact absurd brace named.braceless
    | cons => rw [isName, read]

theorem splitUnit_body {t before value : Text} {marker : DefaultMarker}
    (marked : DefaultAt t before marker value) :
    (splitUnit t).body = (exportedExpression t (width (before ++ marker.text))).body := by
  simp only [splitUnit, marked.found, defaultUnit, width_append]

theorem splitUnit_of_value {t before value done rest body : Text} {marker : DefaultMarker}
    {name : Option Text} (marked : DefaultAt t before marker value)
    (read : exportedExpression t (width (before ++ marker.text)) = ⟨body, width done, name⟩)
    (split : t = done ++ rest) (brace : '{' ∈ body) :
    splitUnit t = ⟨before, body, withoutSemicolon rest, name⟩ := by
  have front : takeWidth (width before) t = before := by
    rw [marked.split, takeWidth_width_append]
  have behind : dropWidth (width done) t = rest := by rw [split, dropWidth_width_append]
  have unnamed (preamble left : Text) :
      declaredName? ⟨body, width done, name⟩ preamble left = none := by
    rw [declaredName?, isName_of_brace brace]
    rfl
  simp only [splitUnit, marked.found, defaultUnit, ← width_append, read, front, behind, unnamed,
    Option.or_none]

theorem blockValue_some {t front piece rest : Text} (split : t = front ++ (piece ++ rest))
    (head : Text) (name : Option Text) :
    blockValue t head (width front) (some (width (front ++ piece))) name
      = ⟨head ++ piece, width (front ++ piece), name⟩ := by
  rw [blockValue, width_append, split, slice_middle]

theorem functionValue_block {t front opening params between inside rest left : Text}
    {head : FunctionHead} (bracket : head.text = opening ++ ['('])
    (group : Group t (front ++ opening) '(' params ')' left)
    (free : '{' ∉ (codeOf t (front ++ (head.text ++ (params ++ [')']))) between).map Prod.snd)
    (block : Group t (front ++ (head.text ++ (params ++ ')' :: between))) '{' inside '}' rest) :
    functionValue t (width front) head
      = ⟨head.anonymous ++ (params ++ ')' :: between) ++ '{' :: (inside ++ ['}']),
        width (front ++ (head.text ++ (params ++ ')' :: between)) ++ ['{'] ++ inside ++ ['}']),
        head.name⟩ := by
  have start : width front + width head.text - 1 = width (front ++ opening) := by
    have one : Char.utf8Size '(' = 1 := by decide
    rw [bracket]
    simp only [width_append, width_cons, width_nil]
    omega
  have through : front ++ opening ++ ['('] ++ params ++ [')']
      = front ++ (head.text ++ (params ++ [')'])) := by
    rw [bracket]
    simp
  have whole : front ++ (head.text ++ (params ++ [')'])) ++ between
      = front ++ (head.text ++ (params ++ ')' :: between)) := by simp
  have closed := group.balancedEnd?
  rw [codeOf, whole] at free
  have le : width (front ++ (head.text ++ (params ++ [')'])))
      ≤ width (front ++ (head.text ++ (params ++ ')' :: between))) := by
    rw [← whole]
    exact width_le_append ..
  have found := block.blockEnd? le free
  have cut : t = (front ++ head.text) ++ ((params ++ ')' :: between ++ '{' :: (inside ++ ['}'])) ++
      rest) := by
    rw [block.split]
    simp
  have value := blockValue_some cut head.anonymous head.name
  rw [through] at closed
  simp only [functionValue, start, closed, Option.bind_some, found]
  rw [← width_append]
  simpa using value

section Class

variable {t front heritage inside rest : Text} (name : Option Text)
  (block : Group t (front ++ heritage) '{' inside '}' rest)

include block

theorem classBlock_of_free (free : '{' ∉ (codeOf t front heritage).map Prod.snd) :
    blockValue t classWord (width front) (blockEnd? t (width front)) name
      = ⟨classWord ++ heritage ++ '{' :: (inside ++ ['}']),
        width (front ++ heritage ++ ['{'] ++ inside ++ ['}']), name⟩ := by
  have cut : t = front ++ ((heritage ++ '{' :: (inside ++ ['}'])) ++ rest) := by
    rw [block.split]
    simp
  have value := blockValue_some cut classWord name
  rw [block.blockEnd? (width_le_append ..) free]
  simpa using value

theorem classBlock_of_brace (balanced : Balanced (codeOf t front heritage))
    (braced : '{' ∈ (codeOf t front heritage).map Prod.snd) :
    (blockValue t classWord (width front) (blockEnd? t (width front)) name).body
      ≠ classWord ++ heritage ++ '{' :: (inside ++ ['}']) := by
  obtain ⟨place, member, found⟩ := blockEnd?_of_balanced (width_le_append ..) balanced braced
  have whole : t = front ++ (heritage ++ '{' :: (inside ++ '}' :: rest)) := by
    rw [block.split, List.append_assoc]
  obtain ⟨lead, ending, rfl, rfl⟩ := split_of_mem_codeOf whole member
  have split : t = front ++ ((lead ++ ['}']) ++ (ending ++ '{' :: (inside ++ '}' :: rest))) := by
    rw [whole]
    simp
  have stop : width (front ++ lead) + 1 = width (front ++ (lead ++ ['}'])) := by
    rw [← List.append_assoc, width_append _ ['}']]
    rfl
  rw [found, stop, blockValue_some split]
  intro same
  have longer := congrArg List.length same
  simp only [List.length_append, List.length_cons, List.length_nil] at longer
  omega

end Class

theorem mem_codeOf_class {t front word heritage rest : Text}
    (split : t = front ++ (word ++ heritage ++ rest)) (braceless : '{' ∉ word) :
    '{' ∈ (codeOf t front (word ++ heritage)).map Prod.snd ↔
      '{' ∈ (codeOf t (front ++ word) heritage).map Prod.snd := by
  have none_ : '{' ∉ (codeOf t front word).map Prod.snd := by
    intro inside
    obtain ⟨⟨position, c⟩, member, rfl⟩ := List.mem_map.1 inside
    rw [List.append_assoc] at split
    obtain ⟨lead, ending, rfl, -⟩ := split_of_mem_codeOf split member
    simp at braceless
  rw [codeOf_append, List.map_append, List.mem_append, or_iff_right none_]

theorem splitUnit_class {t before word heritage inside rest : Text} {marker : DefaultMarker}
    {name : Option Text}
    (marked : DefaultAt t before marker (word ++ heritage ++ '{' :: (inside ++ '}' :: rest)))
    (value : exportedExpression t (width (before ++ marker.text))
      = blockValue t classWord (width (before ++ marker.text ++ word))
          (blockEnd? t (width (before ++ marker.text ++ word))) name)
    (braceless : '{' ∉ word)
    (balanced : Balanced (codeOf t (before ++ marker.text ++ word) heritage))
    (block : Group t (before ++ marker.text ++ (word ++ heritage)) '{' inside '}' rest) :
    splitUnit t = ⟨before, classWord ++ heritage ++ '{' :: (inside ++ ['}']),
        withoutSemicolon rest, name⟩ ↔
      '{' ∉ (codeOf t (before ++ marker.text) (word ++ heritage)).map Prod.snd := by
  have whole : t
      = before ++ marker.text ++ (word ++ heritage ++ '{' :: (inside ++ '}' :: rest)) := by
    rw [marked.split, List.append_assoc before]
  rw [mem_codeOf_class whole braceless]
  rw [← List.append_assoc] at block
  constructor
  · intro same braced
    have body : (exportedExpression t (width (before ++ marker.text))).body
        = classWord ++ heritage ++ '{' :: (inside ++ ['}']) := by
      rw [← splitUnit_body marked, same]
    rw [value] at body
    exact classBlock_of_brace name block balanced braced body
  · intro free
    rw [classBlock_of_free name block free] at value
    exact splitUnit_of_value marked value block.done (by simp)

theorem FunctionHead.Formed.not_class {head : FunctionHead} (formed : head.Formed) (behind : Text) :
    ¬ classWord <+: head.text ++ behind := by
  rintro ⟨left, split⟩
  have read := formed.read behind
  rw [← split, functionHead?_class] at read
  contradiction

/-- A function or class that a default marker exports becomes the body without its name, through
the brace that closes its block, and what follows it the epilogue; a class exactly if no brace
stands in its head, where the end is sought. -/
theorem default_block_split_iff {t before written anonymous inside rest : Text}
    {marker : DefaultMarker} {name : Option Text}
    (marked : DefaultAt t before marker (written ++ '{' :: (inside ++ '}' :: rest)))
    (head : BlockHead t (before ++ marker.text) written anonymous name)
    (block : Group t (before ++ marker.text ++ written) '{' inside '}' rest) :
    splitUnit t = ⟨before, anonymous ++ '{' :: (inside ++ ['}']), withoutSemicolon rest, name⟩ ↔
      (classWord <+: written → '{' ∉ (codeOf t (before ++ marker.text) written).map Prod.snd) := by
  have whole : t = before ++ marker.text ++ (written ++ '{' :: (inside ++ '}' :: rest)) := by
    rw [marked.split, List.append_assoc]
  cases head with
  | @function head opening params between left formed bracket group free =>
    have other : ¬ classWord <+: head.text ++ (params ++ ')' :: between) := formed.not_class _
    simp only [other, false_imp_iff, iff_true]
    have value : exportedExpression t (width (before ++ marker.text))
        = functionValue t (width (before ++ marker.text)) head := by
      rw [exportedExpression, whole, dropWidth_width_append, List.append_assoc, formed.read]
    rw [functionValue_block bracket group free block] at value
    exact splitUnit_of_value marked value block.done (by simp)
  | @named gap name heritage filled blank named other form balanced =>
    have split : t = before ++ marker.text ++ (classWord ++ (gap ++ (name ++ (heritage ++ '{' ::
        (inside ++ '}' :: rest))))) := by
      rw [whole]
      simp
    have value := exportedExpression_named split ⟨filled, blank, named, form.whole _⟩ other
    have braceless : '{' ∉ classWord ++ (gap ++ name) := by
      simp only [List.mem_append, not_or]
      refine ⟨by decide, ?_, named.braceless⟩
      intro inGap
      exact absurd (blank '{' inGap) (by decide)
    have same : classWord ++ (gap ++ (name ++ heritage))
        = classWord ++ (gap ++ name) ++ heritage := by
      simp
    rw [same] at marked block ⊢
    have prefixed : classWord <+: classWord ++ (gap ++ name) ++ heritage :=
      ⟨gap ++ name ++ heritage, by simp⟩
    simp only [prefixed, true_imp_iff]
    exact splitUnit_class marked value braceless balanced block
  | @unnamed heritage form balanced =>
    have split : t = before ++ marker.text ++ (classWord ++ (heritage ++ '{' ::
        (inside ++ '}' :: rest))) := by
      rw [whole]
      simp
    have value := exportedExpression_unnamed split form
    have prefixed : classWord <+: classWord ++ heritage := List.prefix_append _ _
    simp only [prefixed, true_imp_iff]
    exact splitUnit_class marked value (by decide) balanced block

def exportMarker : DefaultMarker := ⟨[], "export default "⟩

theorem blank_space : ∀ c ∈ [' '], isBlank c := List.forall_mem_singleton.2 (by decide)

theorem exportMarker_formed {rest : Text} (stops : rest.head?.any isBlank = false) :
    exportMarker.Formed rest where
  indent := List.forall_mem_nil _
  words := ⟨"export ", [' '], rfl, ⟨[' '], rfl, List.cons_ne_nil _ _, blank_space⟩, blank_space,
    rfl⟩
  stops := stops

def loadHead : FunctionHead := ⟨"async ", [], some "load", "async function load("⟩

theorem loadHead_formed : loadHead.Formed where
  asynchrony := Or.inr ⟨[' '], rfl, List.cons_ne_nil _ _, blank_space⟩
  text := ⟨[' '], [], "load", rfl, blank_space, List.forall_mem_nil _, Or.inl ⟨rfl, rfl⟩,
    Or.inr ⟨"load", [], rfl, ⟨rfl, List.all_eq_true.1 (by decide +kernel)⟩, rfl,
      List.forall_mem_nil _⟩⟩

def loadWords : Text := "async function load({ at } = {}) "

def loadModule : Text :=
  "export default async function load({ at } = {}) { run({ at }); };\nnext();"

theorem loadModule_split :
    DefaultAt loadModule [] exportMarker
      (loadWords ++ '{' :: (" run({ at }); " ++ '}' :: ";\nnext();")) ∧
    BlockHead loadModule exportMarker.text loadWords "async function ({ at } = {}) " (some "load") ∧
    Group loadModule (exportMarker.text ++ loadWords) '{' " run({ at }); " '}' ";\nnext();" ∧
    splitUnit loadModule
      = ⟨[], "async function ({ at } = {}) { run({ at }); }", "\nnext();", some "load"⟩ := by
  have marked : DefaultAt loadModule [] exportMarker
      (loadWords ++ '{' :: (" run({ at }); " ++ '}' :: ";\nnext();")) :=
    ⟨rfl, exportMarker_formed rfl, Or.inl rfl⟩
  have params : Group loadModule (exportMarker.text ++ ("async function load" : Text)) '('
      "{ at } = {}" ')' " { run({ at }); };\nnext();" :=
    ⟨rfl, by decide +kernel, by decide +kernel, by decide +kernel⟩
  have free : '{' ∉ (codeOf loadModule (exportMarker.text ++ (loadHead.text ++
      (("{ at } = {}" : Text) ++ [')']))) [' ']).map Prod.snd := by
    decide +kernel
  have head : BlockHead loadModule exportMarker.text loadWords "async function ({ at } = {}) "
      (some "load") := .function loadHead_formed rfl params free
  have block : Group loadModule (exportMarker.text ++ loadWords) '{' " run({ at }); " '}'
      ";\nnext();" := ⟨rfl, by decide +kernel, by decide +kernel, by decide +kernel⟩
  have function : ¬ classWord <+: loadWords := by decide +kernel
  refine ⟨marked, head, block, ?_⟩
  exact (default_block_split_iff marked head block).2 fun class_ => absurd class_ function

/-! A class whose heritage clause holds a brace. -/

def mixinWords : Text := "class Panel extends mixin({ a: 1 }) "

def mixinModule : Text := "export default class Panel extends mixin({ a: 1 }) { b = 2; }"

theorem mixinModule_cut :
    DefaultAt mixinModule [] exportMarker (mixinWords ++ '{' :: (" b = 2; " ++ '}' :: [])) ∧
    BlockHead mixinModule exportMarker.text mixinWords "class extends mixin({ a: 1 }) "
      (some "Panel") ∧
    Group mixinModule (exportMarker.text ++ mixinWords) '{' " b = 2; " '}' [] ∧
    splitUnit mixinModule = ⟨[], "class extends mixin({ a: 1 }", ") { b = 2; }", some "Panel"⟩ := by
  have named : Named "Panel" := ⟨rfl, List.all_eq_true.1 (by decide +kernel)⟩
  have form : Heritage " extends mixin({ a: 1 }) " :=
    .extending [' '] " mixin({ a: 1 }) " (List.cons_ne_nil _ _) blank_space rfl
  have balanced : Balanced (codeOf mixinModule (exportMarker.text ++ (classWord ++ ([' '] ++
      ("Panel" : Text)))) " extends mixin({ a: 1 }) ") := by
    decide +kernel
  refine ⟨⟨rfl, exportMarker_formed rfl, Or.inl rfl⟩, ?_,
    ⟨rfl, by decide +kernel, by decide +kernel, by decide +kernel⟩, by decide +kernel⟩
  exact .named (List.cons_ne_nil _ _) blank_space named (by decide +kernel) form balanced

end ComponentBundle.Module
