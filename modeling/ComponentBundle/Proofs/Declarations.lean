import ComponentBundle.Proofs.ImportReading
import ComponentBundle.Proofs.Phrases

/-!
The form of a declaration at a line start: indentation, the words that may stand before it, a
keyword and the first name. What is read there is exactly what has this form.
-/
namespace ComponentBundle.Module
open ComponentBundle.Text ComponentBundle.Source

theorem takeWhile_append_of_head {p : Char → Bool} {a rest : Text} (all : ∀ c ∈ a, p c)
    (stops : rest.head?.any p = false) : (a ++ rest).takeWhile p = a := by
  rw [List.takeWhile_append_of_pos all]
  cases rest with
  | nil => simp
  | cons c rest => rw [List.takeWhile_cons_of_neg (by simpa using stops), List.append_nil]

theorem dropWhile_append_of_head {p : Char → Bool} {a rest : Text} (all : ∀ c ∈ a, p c)
    (stops : rest.head?.any p = false) : (a ++ rest).dropWhile p = rest := by
  rw [List.dropWhile_append_of_pos all]
  cases rest with
  | nil => rfl
  | cons c rest => rw [List.dropWhile_cons_of_neg (by simpa using stops)]

theorem head?_dropWhile_any (p : Char → Bool) (t : Text) : (t.dropWhile p).head?.any p = false := by
  cases behind : t.dropWhile p with
  | nil => rfl
  | cons c rest => simpa using stop_of_dropWhile_cons behind

theorem blanks_append {gap rest : Text} (all : ∀ c ∈ gap, isBlank c)
    (stops : rest.head?.any isBlank = false) : blanks (gap ++ rest) = (gap, rest) := by
  rw [blanks, takeWhile_append_of_head all stops, dropWhile_append_of_head all stops]

theorem blanks_spec (t : Text) : t = (blanks t).1 ++ (blanks t).2 ∧ (∀ c ∈ (blanks t).1, isBlank c) ∧
    (blanks t).2.head?.any isBlank = false :=
  ⟨List.takeWhile_append_dropWhile.symm, fun _ inside => List.mem_takeWhile_imp inside,
    head?_dropWhile_any isBlank t⟩

theorem indentation_append {indent rest : Text} (all : ∀ c ∈ indent, isIndent c)
    (stops : rest.head?.any isIndent = false) : indentation (indent ++ rest) = (indent, rest) := by
  rw [indentation, takeWhile_append_of_head all stops, dropWhile_append_of_head all stops]

theorem indentation_spec (t : Text) : t = (indentation t).1 ++ (indentation t).2 ∧
    (∀ c ∈ (indentation t).1, isIndent c) ∧ (indentation t).2.head?.any isIndent = false :=
  ⟨List.takeWhile_append_dropWhile.symm, fun _ inside => List.mem_takeWhile_imp inside,
    head?_dropWhile_any isIndent t⟩

theorem word?_eq_some_iff {word t : Text} {r : Reading} :
    word? word t = some r ↔ r.1 = word ∧ t = word ++ r.2 := by
  obtain ⟨used, rest⟩ := r
  simp only [word?, Option.map_eq_some_iff, after?_eq_some_iff, Prod.mk.injEq]
  constructor
  · rintro ⟨_, split, rfl, rfl⟩
    exact ⟨rfl, split⟩
  · rintro ⟨rfl, split⟩
    exact ⟨rest, split, rfl, rfl⟩

def Spaced (word t : Text) : Prop := ∃ gap, t = word ++ gap ∧ gap ≠ [] ∧ ∀ c ∈ gap, isBlank c

theorem spacedWord?_eq_some_iff {word t : Text} {r : Reading} :
    spacedWord? word t = some r ↔
      Spaced word r.1 ∧ r.2.head?.any isBlank = false ∧ t = r.1 ++ r.2 := by
  obtain ⟨used, rest⟩ := r
  constructor
  · intro h
    simp only [spacedWord?, bind, Option.bind_eq_some_iff, Prod.exists, word?_eq_some_iff] at h
    obtain ⟨_, behind, ⟨rfl, rfl⟩, gap, after, spaced, same⟩ := h
    cases same
    rw [someBlanks?] at spaced
    split at spaced
    · contradiction
    · rename_i filled
      obtain ⟨split, all, stops⟩ := blanks_spec behind
      rw [Option.some.inj spaced] at split all stops
      refine ⟨⟨gap, rfl, ?_, all⟩, stops, ?_⟩
      · rintro rfl
        have := Option.some.inj spaced
        simp only [blanks, Prod.mk.injEq] at this
        simp [this.1] at filled
      · rw [List.append_assoc, ← split]
  · rintro ⟨⟨gap, same, filled, all⟩, stops, rfl⟩
    obtain rfl : used = word ++ gap := same
    have gap_ := blanks_append all stops
    have some_ : someBlanks? (gap ++ rest) = some (gap, rest) := by
      rw [someBlanks?, takeWhile_append_of_head all stops, if_neg (by simpa using filled), gap_]
    have word_ : word? word (word ++ (gap ++ rest)) = some (word, gap ++ rest) :=
      word?_eq_some_iff.2 ⟨rfl, rfl⟩
    rw [List.append_assoc, spacedWord?, word_]
    simp only [bind, Option.bind_some, some_]
    rfl

theorem optionalReading_some {read : Text → Option Reading} {t : Text} {r : Reading}
    (found : read t = some r) : optionalReading read t = r := by
  rw [optionalReading, found]
  rfl

theorem optionalReading_none {read : Text → Option Reading} {t : Text} (missing : read t = none) :
    optionalReading read t = ([], t) := by
  rw [optionalReading, missing]
  rfl

def MaybeSpaced (word t : Text) : Prop := t = [] ∨ Spaced word t

theorem optionalWord_spec (word t : Text) :
    t = (optionalReading (spacedWord? word) t).1 ++ (optionalReading (spacedWord? word) t).2 ∧
      MaybeSpaced word (optionalReading (spacedWord? word) t).1 := by
  cases found : spacedWord? word t with
  | none =>
    rw [optionalReading_none found]
    exact ⟨rfl, Or.inl rfl⟩
  | some r =>
    obtain ⟨spaced, -, split⟩ := spacedWord?_eq_some_iff.1 found
    rw [optionalReading_some found]
    exact ⟨split, Or.inr spaced⟩

theorem after?_eq_none_of_head {c d : Char} {word t : Text} (first : t.head? = some d)
    (other : c ≠ d) : after? (c :: word) t = none := by
  cases t with
  | nil => rfl
  | cons e t =>
    obtain rfl : e = d := Option.some.inj first
    rw [after?, if_neg other]

theorem spacedWord?_eq_none_of_head {c d : Char} {word t : Text} (first : t.head? = some d)
    (other : c ≠ d) : spacedWord? (c :: word) t = none := by
  rw [spacedWord?, word?, after?_eq_none_of_head first other]
  rfl

theorem optionalWord_append {c d : Char} {word used rest : Text} (maybe : MaybeSpaced (c :: word) used)
    (first : rest.head? = some d) (other : c ≠ d) (filled : isBlank d = false) :
    optionalReading (spacedWord? (c :: word)) (used ++ rest) = (used, rest) := by
  rcases maybe with rfl | spaced
  · exact optionalReading_none (spacedWord?_eq_none_of_head first other)
  · apply optionalReading_some
    apply spacedWord?_eq_some_iff.2
    refine ⟨spaced, ?_, rfl⟩
    rw [first]
    simpa using filled

theorem optionalChar_spec (c : Char) (t : Text) : t = (optionalChar c t).1 ++ (optionalChar c t).2 ∧
    ((optionalChar c t).1 = [] ∨ (optionalChar c t).1 = [c]) := by
  cases t with
  | nil => exact ⟨rfl, Or.inl rfl⟩
  | cons d t =>
    rw [optionalChar]
    split
    · rename_i same
      rw [same]
      exact ⟨rfl, Or.inr rfl⟩
    · exact ⟨rfl, Or.inl rfl⟩

/-- What may stand between the word `function` and a name. -/
inductive FunctionGap : Text → Prop where
  | plain (gap : Text) (blank : ∀ c ∈ gap, isBlank c) : FunctionGap gap
  | starred (gap space : Text) (blank : ∀ c ∈ gap, isBlank c) (blank' : ∀ c ∈ space, isBlank c) :
      FunctionGap (gap ++ '*' :: space)

/-- The word of a declaration with everything up to the name, in front of `rest`. -/
inductive DeclarationWord : (keyword rest : Text) → Prop where
  | ofFunction (gap rest : Text) (form : FunctionGap gap) (ends : atWordEnd (gap ++ rest)) :
      DeclarationWord (functionWord ++ gap) rest
  | ofBinding (word keyword rest : Text) (known : word ∈ bindingWords)
      (spaced : Spaced word keyword) : DeclarationWord keyword rest

theorem isBlank_of_isNameStart {c : Char} (start : isNameStart c) : isBlank c = false := by
  have low : c.toNat < 0x80 ∧ 0x24 ≤ c.toNat := by
    simp only [isNameStart, Bool.or_eq_true, decide_eq_true_eq, Char.isAlpha, Char.isUpper,
      Char.isLower, Bool.and_eq_true, UInt32.le_iff_toNat_le, ge_iff_le] at start
    rcases start with (letter | rfl) | rfl
    · simp only [Char.toNat]
      have upper : 'A'.val.toNat = 65 ∧ 'Z'.val.toNat = 90 := by decide
      have lower : 'a'.val.toNat = 97 ∧ 'z'.val.toNat = 122 := by decide
      omega
    · decide
    · decide
  simp only [isBlank, Bool.or_eq_false_iff, Bool.and_eq_false_iff, decide_eq_false_iff_not]
  omega

theorem optionalStar_none {d : Char} {t : Text} (first : t.head? = some d) (other : d ≠ '*') :
    optionalChar '*' t = ([], t) := by
  cases t with
  | nil => rfl
  | cons e t =>
    obtain rfl : e = d := Option.some.inj first
    rw [optionalChar, if_neg other]

theorem isIndent_of_not_isBlank {c : Char} (visible : isBlank c = false) : isIndent c = false := by
  cases indents : isIndent c with
  | false => rfl
  | true => rw [isBlank_of_isIndent indents] at visible; contradiction

theorem functionMark?_spec {t : Text} {r : Reading} (h : functionMark? t = some r) :
    ∃ gap, FunctionGap gap ∧ r.1 ++ (blanks r.2).1 = functionWord ++ gap ∧ t = r.1 ++ r.2 := by
  simp only [functionMark?, bind, Option.bind_eq_some_iff, Prod.exists, word?_eq_some_iff] at h
  obtain ⟨_, u, ⟨rfl, rfl⟩, same⟩ := h
  obtain ⟨gapSplit, gapBlank, -⟩ := blanks_spec u
  generalize blanks u = read at *
  obtain ⟨gap, starred⟩ := read
  obtain ⟨starSplit, star_⟩ := optionalChar_spec '*' starred
  generalize optionalChar '*' starred = read at *
  obtain ⟨star, spaced⟩ := read
  obtain ⟨-, spaceBlank, -⟩ := blanks_spec spaced
  obtain rfl := Option.some.inj same
  obtain rfl : starred = star ++ spaced := starSplit
  obtain rfl : u = gap ++ (star ++ spaced) := gapSplit
  refine ⟨gap ++ (star ++ (blanks spaced).1), ?_, by simp, by simp⟩
  rcases star_ with rfl | rfl
  · exact .plain _ (List.forall_mem_append.2 ⟨gapBlank, spaceBlank⟩)
  · exact .starred gap _ gapBlank spaceBlank

theorem functionMark?_append {gap rest : Text} {d : Char} (form : FunctionGap gap)
    (first : rest.head? = some d) (start : isNameStart d) :
    ∃ mark space, functionMark? (functionWord ++ (gap ++ rest)) = some (mark, space ++ rest) ∧
      mark ++ space = functionWord ++ gap ∧ ∀ c ∈ space, isBlank c := by
  have word : word? functionWord (functionWord ++ (gap ++ rest)) = some (functionWord, gap ++ rest) :=
    word?_eq_some_iff.2 ⟨rfl, rfl⟩
  rw [functionMark?, word]
  simp only [bind, Option.bind_some, pure]
  cases form with
  | plain _ blank =>
    have visible : rest.head?.any isBlank = false := by
      rw [first]
      exact isBlank_of_isNameStart start
    have starless : optionalChar '*' rest = ([], rest) := by
      apply optionalStar_none first
      rintro rfl
      exact absurd start (by decide)
    rw [blanks_append blank visible, starless]
    exact ⟨functionWord ++ (gap ++ []), [], rfl, by simp, by simp⟩
  | starred gap space blank blank' =>
    have star : ('*' :: (space ++ rest)).head?.any isBlank = false := rfl
    rw [List.append_assoc, List.cons_append, blanks_append blank star]
    exact ⟨functionWord ++ (gap ++ ['*']), space, by simp [optionalChar], by simp, blank'⟩

theorem functionKeyword?_spec {t : Text} {r : Reading} (h : functionKeyword? t = some r) :
    DeclarationWord r.1 r.2 ∧ t = r.1 ++ r.2 := by
  simp only [functionKeyword?, bind, Option.bind_eq_some_iff, Prod.exists] at h
  obtain ⟨mark, behind, read, result⟩ := h
  obtain ⟨gap, form, whole, split⟩ := functionMark?_spec read
  obtain ⟨spaceSplit, -, -⟩ := blanks_spec behind
  split at result
  · rename_i ends
    obtain rfl := Option.some.inj result
    have same : t = functionWord ++ (gap ++ (blanks behind).2) := by
      rw [← List.append_assoc, ← whole, List.append_assoc, ← spaceSplit]
      exact split
    rw [same, List.drop_left] at ends
    constructor
    · rw [whole]
      exact .ofFunction gap _ form ends
    · rw [whole, List.append_assoc]
      exact same
  · contradiction

theorem functionKeyword?_append {gap rest : Text} {d : Char} (form : FunctionGap gap)
    (ends : atWordEnd (gap ++ rest)) (first : rest.head? = some d) (start : isNameStart d) :
    functionKeyword? (functionWord ++ (gap ++ rest)) = some (functionWord ++ gap, rest) := by
  obtain ⟨mark, space, read, whole, blank⟩ := functionMark?_append form first start
  have visible : rest.head?.any isBlank = false := by
    rw [first]
    exact isBlank_of_isNameStart start
  rw [functionKeyword?, read, List.drop_left]
  simp only [bind, Option.bind_some, pure, blanks_append blank visible, if_pos ends, whole]

theorem after?_eq_none_of_apart {word other rest : Text} (known : word ∈ bindingWords)
    (otherKnown : other ∈ bindingWords) (apart : other ≠ word) :
    after? other (word ++ rest) = none := by
  rw [Option.eq_none_iff_forall_ne_some]
  intro behind found
  have words : ∀ a ∈ bindingWords, ∀ b ∈ bindingWords, a <+: b → a = b := by decide
  have front : word <+: other ++ behind := ⟨rest, after?_eq_some_iff.1 found⟩
  rcases List.prefix_or_prefix_of_prefix front (List.prefix_append other _) with less | less
  · exact apart (words _ known _ otherKnown less).symm
  · exact apart (words _ otherKnown _ known less)

theorem findSome?_eq_of_unique {α β : Type} {f : α → Option β} {l : List α} {a : α} {b : β}
    (member : a ∈ l) (found : f a = some b) (others : ∀ x ∈ l, x ≠ a → f x = none) :
    l.findSome? f = some b := by
  cases result : l.findSome? f with
  | none => rw [List.findSome?_eq_none_iff.1 result a member] at found; exact found
  | some y =>
    obtain ⟨x, inside, here⟩ := List.exists_of_findSome?_eq_some result
    by_cases same : x = a
    · rw [← here, same, found]
    · rw [others x inside same] at here
      contradiction

theorem bindingWord_head {word : Text} (known : word ∈ bindingWords) : ∃ c, word.head? = some c ∧
    c ≠ 'f' ∧ c ≠ 'e' ∧ c ≠ 'a' ∧ isBlank c = false := by
  revert word
  simp only [bindingWords, List.forall_mem_cons, classWord, List.head?_cons, Option.some.injEq,
    exists_eq_left']
  decide

theorem DeclarationWord.head {keyword rest : Text} (form : DeclarationWord keyword rest) :
    ∃ c, keyword.head? = some c ∧ c ≠ 'e' ∧ c ≠ 'a' ∧ isBlank c = false := by
  cases form with
  | ofFunction gap rest form ends => exact ⟨'f', rfl, by decide⟩
  | ofBinding word _ rest known spaced =>
    obtain ⟨c, first, -, other⟩ := bindingWord_head known
    obtain ⟨gap, rfl, -, -⟩ := spaced
    refine ⟨c, ?_, other⟩
    rw [List.head?_append, first]
    rfl

theorem declarationKeyword?_spec {t : Text} {r : Reading} (h : declarationKeyword? t = some r) :
    DeclarationWord r.1 r.2 ∧ t = r.1 ++ r.2 := by
  rw [declarationKeyword?, Option.or_eq_some_iff] at h
  rcases h with function | ⟨-, binding⟩
  · exact functionKeyword?_spec function
  · obtain ⟨word, known, found⟩ := List.exists_of_findSome?_eq_some binding
    obtain ⟨spaced, -, split⟩ := spacedWord?_eq_some_iff.1 found
    exact ⟨.ofBinding word _ _ known spaced, split⟩

theorem declarationKeyword?_append {keyword rest : Text} {d : Char}
    (form : DeclarationWord keyword rest) (first : rest.head? = some d) (start : isNameStart d) :
    declarationKeyword? (keyword ++ rest) = some (keyword, rest) := by
  rw [declarationKeyword?]
  cases form with
  | ofFunction gap _ form ends =>
    rw [List.append_assoc, functionKeyword?_append form ends first start]
    rfl
  | ofBinding word _ _ known spaced =>
    obtain ⟨c, head, other, -⟩ := bindingWord_head known
    have visible : rest.head?.any isBlank = false := by
      rw [first]
      exact isBlank_of_isNameStart start
    have function : functionKeyword? (keyword ++ rest) = none := by
      obtain ⟨gap, rfl, -, -⟩ := spaced
      have away : after? functionWord (word ++ gap ++ rest) = none := by
        apply after?_eq_none_of_head _ other.symm
        rw [List.append_assoc, List.head?_append, head]
        rfl
      rw [functionKeyword?, functionMark?, word?, away]
      rfl
    rw [function, Option.none_or]
    have found : spacedWord? word (keyword ++ rest) = some (keyword, rest) :=
      spacedWord?_eq_some_iff.2 ⟨spaced, visible, rfl⟩
    apply findSome?_eq_of_unique known found
    intro other otherKnown apart
    obtain ⟨gap, rfl, -, -⟩ := spaced
    rw [List.append_assoc, spacedWord?, word?, after?_eq_none_of_apart known otherKnown apart]
    rfl

theorem name?_spec {t name rest : Text} (h : name? t = some (name, rest)) :
    t = name ++ rest ∧ ∃ d, name.head? = some d ∧ isNameStart d := by
  cases t with
  | nil => contradiction
  | cons c t =>
    rw [name?] at h
    split at h
    · rename_i start
      obtain ⟨rfl, rfl⟩ := Prod.mk.inj (Option.some.inj h)
      refine ⟨?_, c, rfl, start⟩
      rw [List.cons_append, List.takeWhile_append_dropWhile]
    · contradiction

/-- The form of a declaration in front of `rest`: indentation, `export` and `async` or none of
them, the word of the declaration, and a name that ends where it is declared. -/
structure Declaration.Formed (d : Declaration) (rest : Text) : Prop where
  lead : ∃ indent exporting asynchrony, d.lead = indent ++ (exporting ++ asynchrony) ∧
    (∀ c ∈ indent, isIndent c) ∧ MaybeSpaced exportWord exporting ∧ MaybeSpaced asyncWord asynchrony
  keyword : DeclarationWord d.keyword (d.name ++ rest)
  name : name? (d.name ++ rest) = some (d.name, rest)

theorem head?_maybe {c b : Char} {word used rest : Text} (maybe : MaybeSpaced (c :: word) used)
    (first : rest.head? = some b) : ∃ d, (used ++ rest).head? = some d ∧ (d = c ∨ d = b) := by
  rcases maybe with rfl | ⟨gap, rfl, -, -⟩
  · exact ⟨b, first, Or.inr rfl⟩
  · exact ⟨c, rfl, Or.inl rfl⟩

theorem Declaration.Formed.read {d : Declaration} {rest : Text} (formed : d.Formed rest) :
    declaration? (d.text ++ rest) = some d := by
  obtain ⟨indent, exporting, asynchrony, lead, indent_, export_, async_⟩ := formed.lead
  obtain ⟨-, start, head, named⟩ := name?_spec formed.name
  have nameHead : (d.name ++ rest).head? = some start := by
    rw [List.head?_append, head]
    rfl
  have word := declarationKeyword?_append formed.keyword nameHead named
  obtain ⟨c, first, notE, notA, visible⟩ := formed.keyword.head
  have wordHead : (d.keyword ++ (d.name ++ rest)).head? = some c := by
    rw [List.head?_append, first]
    rfl
  have asyncRead := optionalWord_append async_ wordHead notA.symm visible
  obtain ⟨b, asyncHead, b_⟩ := head?_maybe async_ wordHead
  have other : b ≠ 'e' ∧ isBlank b = false := by
    rcases b_ with rfl | rfl
    · decide
    · exact ⟨notE, visible⟩
  have exportRead := optionalWord_append export_ asyncHead other.1.symm other.2
  obtain ⟨a, exportHead, a_⟩ := head?_maybe export_ asyncHead
  have outside : isIndent a = false := by
    rcases a_ with rfl | rfl
    · decide
    · exact isIndent_of_not_isBlank other.2
  have indentRead := indentation_append indent_ (by rw [exportHead]; exact outside)
  change optionalReading (spacedWord? asyncWord) _ = _ at asyncRead
  change optionalReading (spacedWord? exportWord) _ = _ at exportRead
  rw [Declaration.text, lead]
  simp only [List.append_assoc, declaration?, indentRead, exportRead, asyncRead, bind, pure]
  rw [word, Option.bind_some, formed.name, Option.bind_some, ← lead]

theorem declaration?_spec {t : Text} {d : Declaration} (h : declaration? t = some d) :
    ∃ rest, t = d.text ++ rest ∧ d.Formed rest := by
  simp only [declaration?, bind, Option.bind_eq_some_iff, Prod.exists, pure] at h
  obtain ⟨keyword, named, word, name, rest, read, same⟩ := h
  obtain rfl := Option.some.inj same
  obtain ⟨nameSplit, -⟩ := name?_spec read
  obtain ⟨form, wordSplit⟩ := declarationKeyword?_spec word
  obtain ⟨indentSplit, indent_, -⟩ := indentation_spec t
  obtain ⟨exportSplit, export_⟩ := optionalWord_spec exportWord (indentation t).2
  obtain ⟨asyncSplit, async_⟩ := optionalWord_spec asyncWord
    (optionalReading (spacedWord? exportWord) (indentation t).2).2
  refine ⟨rest, ?_, ⟨_, _, _, rfl, indent_, export_, async_⟩, nameSplit ▸ form, nameSplit ▸ read⟩
  simp only [Declaration.text, List.append_assoc]
  rw [← nameSplit, ← wordSplit, ← asyncSplit, ← exportSplit, ← indentSplit]

theorem reads_declaration : Reads declaration? Declaration.text where
  split := by
    intro t d h
    obtain ⟨rest, split, -⟩ := declaration?_spec h
    exact ⟨rest, split⟩
  filled := by
    intro t d h empty
    obtain ⟨rest, -, formed⟩ := declaration?_spec h
    obtain ⟨-, start, head, -⟩ := name?_spec formed.name
    simp only [Declaration.text, List.append_eq_nil_iff] at empty
    rw [empty.2.2] at head
    contradiction

inductive ExportedWord : Text → Prop where
  | ofFunction (asynchrony gap : Text) (maybe : MaybeSpaced asyncWord asynchrony)
      (form : FunctionGap gap) : ExportedWord (asynchrony ++ (functionWord ++ gap))
  | ofBinding (word gap : Text) (known : word ∈ bindingWords) (blank : ∀ c ∈ gap, isBlank c) :
      ExportedWord (word ++ gap)

theorem asyncFunctionMark?_spec {t : Text} {r : Reading} (h : asyncFunctionMark? t = some r) :
    ExportedWord (r.1 ++ (blanks r.2).1) ∧ t = r.1 ++ r.2 := by
  simp only [asyncFunctionMark?, bind, Option.bind_eq_some_iff, Prod.exists] at h
  obtain ⟨mark, behind, read, same⟩ := h
  obtain rfl := Option.some.inj same
  obtain ⟨asyncSplit, maybe⟩ := optionalWord_spec asyncWord t
  obtain ⟨gap, form, whole, split⟩ := functionMark?_spec read
  constructor
  · rw [List.append_assoc, whole]
    exact .ofFunction _ gap maybe form
  · rw [List.append_assoc, ← split, ← asyncSplit]

theorem ExportedWord.head {kind : Text} (form : ExportedWord kind) :
    ∃ c, kind.head? = some c ∧ c ≠ 'e' ∧ isBlank c = false := by
  cases form with
  | ofFunction asynchrony gap maybe form =>
    have first : (functionWord ++ gap).head? = some 'f' := rfl
    obtain ⟨d, head, d_⟩ := head?_maybe maybe first
    refine ⟨d, head, ?_⟩
    rcases d_ with rfl | rfl <;> decide
  | ofBinding word gap known blank =>
    obtain ⟨c, head, -, notE, -, visible⟩ := bindingWord_head known
    refine ⟨c, ?_, notE, visible⟩
    rw [List.head?_append, head]
    rfl

structure ExportedDeclaration.Formed (d : ExportedDeclaration) (rest : Text) : Prop where
  indent : ∀ c ∈ d.indent, isIndent c
  keyword : Spaced exportWord d.keyword
  kind : ExportedWord d.kind
  name : name? (d.name ++ rest) = some (d.name, rest)

theorem exportedDeclaration?_spec {t : Text} {d : ExportedDeclaration}
    (h : exportedDeclaration? t = some d) : ∃ rest, t = d.text ++ rest ∧ d.Formed rest := by
  simp only [exportedDeclaration?, bind, Option.bind_eq_some_iff, Prod.exists,
    spacedWord?_eq_some_iff, Option.or_eq_some_iff] at h
  obtain ⟨keyword, behind, ⟨spaced, -, keywordSplit⟩, kind, named, word, name, rest, read, same⟩ := h
  obtain rfl := Option.some.inj same
  obtain ⟨nameSplit, -⟩ := name?_spec read
  obtain ⟨indentSplit, indent_, -⟩ := indentation_spec t
  obtain ⟨gapSplit, gapBlank, -⟩ := blanks_spec named
  have kind_ : ExportedWord (kind ++ (blanks named).1) ∧ behind = kind ++ named := by
    rcases word with function | ⟨-, binding⟩
    · exact asyncFunctionMark?_spec function
    · obtain ⟨word, known, found⟩ := List.exists_of_findSome?_eq_some binding
      obtain ⟨rfl, split⟩ := word?_eq_some_iff.1 found
      exact ⟨.ofBinding kind _ known gapBlank, split⟩
  refine ⟨rest, ?_, indent_, spaced, kind_.1, nameSplit ▸ read⟩
  simp only [ExportedDeclaration.text, List.append_assoc]
  rw [← nameSplit, ← gapSplit, ← kind_.2, ← keywordSplit, ← indentSplit]

theorem reads_exportedDeclaration : Reads exportedDeclaration? ExportedDeclaration.text where
  split := by
    intro t d h
    obtain ⟨rest, split, -⟩ := exportedDeclaration?_spec h
    exact ⟨rest, split⟩
  filled := by
    intro t d h empty
    obtain ⟨rest, -, formed⟩ := exportedDeclaration?_spec h
    obtain ⟨gap, spaced, -, -⟩ := formed.keyword
    simp only [ExportedDeclaration.text, List.append_eq_nil_iff, spaced] at empty
    exact absurd empty.2.1.1 (by decide)

end ComponentBundle.Module
