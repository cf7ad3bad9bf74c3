import ComponentBundle.Proofs.DefaultBlocks
import ComponentBundle.Proofs.RemovedRanges

/-!
Splitting a module keeps its source. What stands before the exported unit, the unit and what
follows it are put together the text again, but for the marker and the separator behind the unit;
without a default export and a template only the words of exports are gone. Every cut is made
between two characters.
-/
namespace ComponentBundle.Module
open ComponentBundle.Text ComponentBundle.Source ComponentBundle.Bundle

def Separator (w : Text) : Prop :=
  ∃ gap mark, w = gap ++ mark ∧ (∀ c ∈ gap, isBlank c) ∧ (mark = [] ∨ mark = [';'])

theorem withoutSemicolon_split (t : Text) : ∃ w, Separator w ∧ t = w ++ withoutSemicolon t := by
  obtain ⟨markSplit, mark⟩ := optionalChar_spec ';' (trimStart t)
  have whole : t.takeWhile isBlank ++ trimStart t = t := List.takeWhile_append_dropWhile
  refine ⟨t.takeWhile isBlank ++ (optionalChar ';' (trimStart t)).1,
    ⟨_, _, rfl, fun c inside => List.mem_takeWhile_imp inside, mark⟩, ?_⟩
  rw [List.append_assoc, withoutSemicolon, ← markSplit, whole]

/-! Where the searches in the code stop. -/

theorem closingBrace?_mem {depth stop : Nat} {code : List (Nat × Char)}
    (h : closingBrace? depth code = some stop) :
    ∃ place, (place, '}') ∈ code ∧ stop = place + 1 := by
  fun_induction closingBrace? depth code with
  | case1 => contradiction
  | case2 _ _ _ ih | case5 _ _ _ _ ih | case6 _ _ _ _ _ _ ih =>
    obtain ⟨place, inside, same⟩ := ih h
    exact ⟨place, List.mem_cons_of_mem _ inside, same⟩
  | case3 => contradiction
  | case4 position more => exact ⟨position, List.mem_cons_self, (Option.some.inj h).symm⟩

theorem balancedEnd?_mem {depth : Int} {stop : Nat} {code : List (Nat × Char)}
    (h : balancedEnd? depth code = some stop) : ∃ x ∈ code, stop = x.1 + 1 := by
  fun_induction balancedEnd? depth code with
  | case1 => contradiction
  | case2 depth position c more => exact ⟨_, List.mem_cons_self, (Option.some.inj h).symm⟩
  | case3 depth position c more _ _ ih =>
    obtain ⟨x, inside, same⟩ := ih h
    exact ⟨x, List.mem_cons_of_mem _ inside, same⟩

theorem semicolon?_mem {depth : Int} {stop : Nat} {code : List (Nat × Char)}
    (h : semicolon? depth code = some stop) : (stop, ';') ∈ code := by
  fun_induction semicolon? depth code with
  | case1 => contradiction
  | case2 _ _ _ _ _ ih | case3 _ _ _ _ _ _ ih | case5 _ _ _ _ _ _ _ ih =>
    exact List.mem_cons_of_mem _ (ih h)
  | case4 depth position c more _ _ here =>
    simp only [Bool.and_eq_true, decide_eq_true_eq] at here
    obtain rfl := Option.some.inj h
    rw [here.1]
    exact List.mem_cons_self

section Ends

variable {t front behind : Text} (split : t = front ++ behind)

include split

theorem cut_of_mem_codeFrom {start position : Nat} {c : Char} (le : width front ≤ start)
    (h : (position, c) ∈ codeFrom t start) :
    ∃ inside rest, behind = inside ++ c :: rest ∧ position = width (front ++ inside) := by
  obtain ⟨known, low⟩ := mem_codeFrom.1 h
  obtain ⟨-, before, rest, cut, rfl⟩ := mem_codeChars.1 known
  obtain ⟨inside, rfl, tail⟩ := cut_of_width_le (split.symm.trans cut) (Nat.le_trans le low)
  exact ⟨inside, rest, tail, rfl⟩

theorem blockEnd?_spec {start stop : Nat} (le : width front ≤ start)
    (h : blockEnd? t start = some stop) :
    ∃ inside rest, behind = inside ++ '}' :: rest ∧ stop = width (front ++ (inside ++ ['}'])) := by
  rw [blockEnd?, Option.bind_eq_some_iff] at h
  obtain ⟨⟨brace, c⟩, found, closed⟩ := h
  have low := (mem_codeFrom.1 (List.mem_of_find?_eq_some found)).2
  obtain ⟨place, member, rfl⟩ := closingBrace?_mem closed
  obtain ⟨inside, rest, tail, rfl⟩ := cut_of_mem_codeFrom split (Nat.le_trans le low) member
  refine ⟨inside, rest, tail, ?_⟩
  rw [← List.append_assoc, width_append _ ['}']]
  rfl

end Ends

/-- How far a block goes that is exported: through a brace, or as far as the text. -/
def StopsBlock (tail rest : Text) : Prop := (∃ inside, tail = inside ++ ['}']) ∨ rest = []

theorem trimEnd_of_visible {t : Text} {c : Char} (visible : isBlank c = false) :
    trimEnd (t ++ [c]) = t ++ [c] := by
  rw [trimEnd, List.reverse_append, List.reverse_singleton, List.singleton_append,
    List.dropWhile_cons_of_neg (by simp [visible])]
  simp

theorem blockValue_spec {t front behind : Text} (split : t = front ++ behind) (head : Text)
    (name : Option Text) {stop? : Option Nat}
    (ends : ∀ stop, stop? = some stop → ∃ inside rest,
      behind = inside ++ '}' :: rest ∧ stop = width (front ++ (inside ++ ['}']))) :
    ∃ tail rest, behind = tail ++ rest ∧ StopsBlock tail rest ∧
      blockValue t head (width front) stop? name
        = ⟨head ++ trimEnd tail, width (front ++ tail), name⟩ := by
  cases stop? with
  | none =>
    refine ⟨behind, [], (List.append_nil _).symm, Or.inr rfl, ?_⟩
    rw [blockValue, split, dropWidth_width_append]
  | some stop =>
    obtain ⟨inside, rest, rfl, rfl⟩ := ends stop rfl
    have cut : t = front ++ ((inside ++ ['}']) ++ rest) := by
      rw [split]
      simp
    refine ⟨inside ++ ['}'], rest, by simp, Or.inl ⟨inside, rfl⟩, ?_⟩
    rw [blockValue_some cut, trimEnd_of_visible (by decide)]

/-- How a unit with `rest` behind it is read: a function or class goes without its name, and its
head is written in one way; anything else is an expression. -/
inductive Unnamed (rest : Text) : (unit body : Text) → (name : Option Text) → Prop where
  | function {head : FunctionHead} {tail : Text} (formed : head.Formed)
      (ends : StopsBlock tail rest) :
      Unnamed rest (head.text ++ tail) (head.anonymous ++ trimEnd tail) head.name
  | named {gap name tail : Text} (named : ClassName gap name (tail ++ rest))
      (other : name ≠ extendsWord) (ends : StopsBlock tail rest) :
      Unnamed rest (classWord ++ (gap ++ (name ++ tail))) (classWord ++ trimEnd tail) (some name)
  | unnamed {tail : Text} (starts : startsClass (tail ++ rest))
      (free : ∀ gap name more, tail ++ rest = gap ++ (name ++ more) → ClassName gap name more →
        name = extendsWord)
      (ends : StopsBlock tail rest) :
      Unnamed rest (classWord ++ tail) (classWord ++ trimEnd tail) none
  | expression {unit : Text} (function : ∀ head : FunctionHead, head.Formed →
        ¬ head.text <+: unit ++ rest)
      (class_ : ∀ behind, unit ++ rest = classWord ++ behind → startsClass behind = false)
      (ends : rest.head? = some ';' ∨ rest = []) :
      Unnamed rest unit (trim unit) none

section Values

variable {t front behind : Text} (split : t = front ++ behind)

include split

theorem functionValue_spec {head : FunctionHead} (read : functionHead? behind = some head) :
    ∃ unit rest body name, behind = unit ++ rest ∧ Unnamed rest unit body name ∧
      functionValue t (width front) head = ⟨body, width (front ++ unit), name⟩ := by
  obtain ⟨formed, left, rfl⟩ := functionHead?_spec read
  have cut : t = (front ++ head.text) ++ left := by rw [split, List.append_assoc]
  have found : ∀ stop,
      (balancedEnd? 0 (codeFrom t (width (front ++ head.text) - 1))).bind (blockEnd? t)
        = some stop → ∃ inside rest, left = inside ++ '}' :: rest ∧
          stop = width (front ++ head.text ++ (inside ++ ['}'])) := by
    intro stop found
    obtain ⟨start, closed, block⟩ := Option.bind_eq_some_iff.1 found
    obtain ⟨⟨place, c⟩, member, rfl⟩ := balancedEnd?_mem closed
    have low := (mem_codeFrom.1 member).2
    exact blockEnd?_spec cut (Nat.le_add_of_sub_le low) block
  obtain ⟨tail, rest, rfl, ends, value⟩ := blockValue_spec cut head.anonymous head.name found
  refine ⟨head.text ++ tail, rest, _, _, (List.append_assoc ..).symm, .function formed ends, ?_⟩
  rw [← List.append_assoc, ← value, functionValue, width_append]

theorem expressionValue_spec : ∃ unit rest, behind = unit ++ rest ∧
    (rest.head? = some ';' ∨ rest = []) ∧
    expressionValue t (width front) = ⟨trim unit, width (front ++ unit), none⟩ := by
  cases found : nextSemicolon? t (width front) with
  | none =>
    refine ⟨behind, [], (List.append_nil _).symm, Or.inr rfl, ?_⟩
    have cut : slice t (width front) (width t) = behind := by
      have whole : front ++ (behind ++ []) = t := by rw [List.append_nil, split]
      have middle := slice_middle front behind []
      rwa [whole, ← width_append, ← split] at middle
    rw [expressionValue, found, Option.getD_none, cut, split]
  | some stop =>
    obtain ⟨unit, rest, rfl, rfl⟩ :=
      cut_of_mem_codeFrom split (Nat.le_refl _) (semicolon?_mem found)
    refine ⟨unit, ';' :: rest, rfl, Or.inl rfl, ?_⟩
    rw [expressionValue, found, Option.getD_some, width_append, split, slice_middle]

theorem classBlock_spec {word left : Text} (cut : behind = word ++ left) (name : Option Text) :
    ∃ tail rest, left = tail ++ rest ∧ StopsBlock tail rest ∧
      blockValue t classWord (width (front ++ word)) (blockEnd? t (width (front ++ word))) name
        = ⟨classWord ++ trimEnd tail, width (front ++ (word ++ tail)), name⟩ := by
  have whole : t = (front ++ word) ++ left := by rw [split, cut, List.append_assoc]
  obtain ⟨tail, rest, same, ends, value⟩ := blockValue_spec whole classWord name
    fun stop found => blockEnd?_spec whole (Nat.le_refl _) found
  exact ⟨tail, rest, same, ends, by rw [value, List.append_assoc]⟩

theorem classValue_spec {left : Text} (cut : behind = classWord ++ left)
    (starts : startsClass left) :
    ∃ unit rest body name, behind = unit ++ rest ∧ Unnamed rest unit body name ∧
      classValue t (width front) left = ⟨body, width (front ++ unit), name⟩ := by
  rcases classValue_cases t front left with
    ⟨gap, name, more, rfl, named, other, value⟩ | ⟨free, value⟩
  · have word : behind = (classWord ++ (gap ++ name)) ++ more := by
      rw [cut]
      simp
    obtain ⟨tail, rest, rfl, ends, block⟩ := classBlock_spec split word (some name)
    refine ⟨_, rest, _, _, ?_, .named named other ends, ?_⟩
    · rw [cut]
      simp
    · rw [value, block]
      simp
  · obtain ⟨tail, rest, rfl, ends, block⟩ := classBlock_spec split cut none
    have whole : behind = (classWord ++ tail) ++ rest := by rw [cut, List.append_assoc]
    exact ⟨_, rest, _, _, whole, .unnamed starts free ends, value.trans block⟩

theorem exportedExpression_spec : ∃ unit rest body name, behind = unit ++ rest ∧
    Unnamed rest unit body name ∧
    exportedExpression t (width front) = ⟨body, width (front ++ unit), name⟩ := by
  have left : dropWidth (width front) t = behind := by rw [split, dropWidth_width_append]
  rw [exportedExpression, left]
  obtain ⟨unit, rest, cut, ends, plain⟩ := expressionValue_spec split
  split
  · rename_i head read
    exact functionValue_spec split read
  · rename_i other
    have function : ∀ head : FunctionHead, head.Formed → ¬ head.text <+: behind := by
      rintro head formed ⟨more, same⟩
      rw [← same, formed.read] at other
      contradiction
    rw [cut] at function
    split
    · rename_i more found
      have word := after?_eq_some_iff.1 found
      split
      · rename_i starts
        exact classValue_spec split word starts
      · rename_i starts
        refine ⟨unit, rest, _, _, cut, .expression function ?_ ends, plain⟩
        intro more' same
        rw [← cut, word, List.append_cancel_left_eq] at same
        simpa [same] using starts
    · rename_i found
      refine ⟨unit, rest, _, _, cut, .expression function ?_ ends, plain⟩
      intro more same
      rw [cut, same, after?_eq_some_iff.2 rfl] at found
      contradiction

end Values

/-- A text in the parts that its module is split into. With a default marker the exported value
stands behind the marker. A template block is exported as it is. Otherwise the exports are taken
out of the text and nothing else. -/
inductive KeepsSource (t : Text) : ExportedUnit → Prop where
  | ofDefault {preamble unit gap epilogue body : Text} {marker : DefaultMarker}
      {name declared : Option Text}
      (found : defaultMarkerIn? t (lex t) = some (width preamble, marker))
      (formed : marker.Formed (unit ++ (gap ++ epilogue)))
      (split : t = preamble ++ (marker.text ++ (unit ++ (gap ++ epilogue))))
      (value : exportedExpression t (width (preamble ++ marker.text))
        = ⟨body, width (preamble ++ marker.text ++ unit), name⟩)
      (separator : Separator gap) (unnamed : Unnamed (gap ++ epilogue) unit body name)
      (known : declared = none ∨ declared = some body) :
      KeepsSource t ⟨preamble, body, epilogue, name.or declared⟩
  | ofTemplate {preamble body gap epilogue : Text} (unmarked : defaultMarkerIn? t (lex t) = none)
      (found : templateIn? t (lex t) = some ⟨.markup, width preamble, width (preamble ++ body)⟩)
      (split : t = preamble ++ (body ++ (gap ++ epilogue))) (separator : Separator gap) :
      KeepsSource t ⟨preamble, body, epilogue, none⟩
  | ofNames {edits : List Edit} {body : Text} (named : OnlyNamed t)
      (ranges : ∀ edit, edit ∈ edits ↔ ExportRange t edit) :
      KeepsSource t ⟨uncovered t edits, body, [], none⟩

theorem defaultUnit_keeps_source {t : Text} {start : Nat} {marker : DefaultMarker}
    (found : defaultMarkerIn? t (lex t) = some (start, marker)) :
    KeepsSource t (defaultUnit t start marker) := by
  obtain ⟨preamble, behind, cut, rfl, -, read⟩ :=
    of_mem_phrases reads_defaultMarker (List.mem_of_find?_eq_some found)
  obtain ⟨value, rfl, formed⟩ := defaultMarker?_spec read
  have marked : t = (preamble ++ marker.text) ++ value := by rw [cut, List.append_assoc]
  obtain ⟨unit, rest, body, name, rfl, unnamed, exported⟩ := exportedExpression_spec marked
  have done : t = (preamble ++ marker.text ++ unit) ++ rest := by
    rw [marked, List.append_assoc _ unit]
  have front : takeWidth (width preamble) t = preamble := by rw [cut, takeWidth_width_append]
  have left : dropWidth (width (preamble ++ marker.text ++ unit)) t = rest := by
    rw [done, dropWidth_width_append]
  obtain ⟨gap, separator, behind⟩ := withoutSemicolon_split rest
  simp only [defaultUnit, ← width_append, exported, front, left]
  generalize withoutSemicolon rest = epilogue at behind
  subst behind
  refine .ofDefault found formed cut exported separator unnamed ?_
  unfold declaredName?
  split
  · exact Or.inr rfl
  · exact Or.inl rfl

theorem templateUnit_keeps_source {t : Text} {span : Span}
    (unmarked : defaultMarkerIn? t (lex t) = none) (found : templateIn? t (lex t) = some span) :
    KeepsSource t (templateUnit t span) := by
  obtain ⟨kind, start, stop⟩ := span
  obtain ⟨segment, -, -, preamble, rest, cut, low, high⟩ :=
    cut_of_mem_extents (mem_spansOf.1 (List.mem_of_find?_eq_some found))
  have markup := List.find?_some found
  simp only [Bool.and_eq_true, decide_eq_true_eq] at low high markup
  obtain ⟨⟨rfl, -⟩, -⟩ := markup
  rw [← width_append] at high
  subst low high
  have done : t = (preamble ++ segment.text) ++ rest := by rw [cut, List.append_assoc]
  have front : takeWidth (width preamble) t = preamble := by rw [cut, takeWidth_width_append]
  have middle : slice t (width preamble) (width (preamble ++ segment.text)) = segment.text := by
    rw [width_append, cut, slice_middle]
  have left : dropWidth (width (preamble ++ segment.text)) t = rest := by
    rw [done, dropWidth_width_append]
  obtain ⟨gap, separator, behind⟩ := withoutSemicolon_split rest
  simp only [templateUnit, front, middle, left]
  exact .ofTemplate unmarked found (behind ▸ cut) separator

/-- Splitting a module neither loses source nor repeats any. -/
theorem splitUnit_keeps_source (t : Text) : KeepsSource t (splitUnit t) := by
  rw [splitUnit]
  split
  · rename_i found
    exact defaultUnit_keeps_source found
  · rename_i unmarked
    split
    · rename_i found
      exact templateUnit_keeps_source unmarked found
    · rename_i untemplated
      have named : KeepsSource t ⟨uncovered t (removals t), (namedUnit t (lex t)).body, [], none⟩ :=
        .ofNames ⟨unmarked, untemplated⟩ fun edit => mem_removals_iff
      rwa [← namedUnit_preamble] at named

/-! A longer word is taken for the word that it starts with. -/

def functionizeModule : Text := "export default functionize(1);"

def sideModule : Text := "export { side };\nfromServer();\nconst side = 2;"

theorem longer_words_misread :
    isName "functionize" ∧ splitUnit functionizeModule = ⟨[], "function (1);", [], some "ize"⟩ ∧
    isName "fromServer" ∧ splitUnit sideModule = ⟨sideModule, "{}", [], none⟩ := by
  decide +kernel

end ComponentBundle.Module
