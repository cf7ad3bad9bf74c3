import ComponentBundle.Proofs.ExportRemoval

/-!
Ranges that are taken out of a text. Where of two of them that overlap the later one lies in the
earlier one, what is left is each character that none of them holds. The exports of a module are
such ranges: a list may hold the words of a declaration, and nothing else overlaps.
-/
namespace ComponentBundle.Bundle
open ComponentBundle.Text ComponentBundle.Source

/-- The characters of a text, from a position on, that no edit covers. -/
def uncoveredFrom (position : Nat) (t : Text) (edits : List Edit) : Text :=
  ((placed position t).filter fun (place, _) =>
    !edits.any fun edit => edit.start ≤ place && place < edit.stop).map Prod.snd

def uncovered (t : Text) (edits : List Edit) : Text := uncoveredFrom 0 t edits

def TakesOut (t : Text) (edit : Edit) : Prop :=
  ∃ front inside rest, t = front ++ (inside ++ rest) ∧
    edit = ⟨width front, width (front ++ inside), []⟩

theorem placed_append (position : Nat) (a b : Text) :
    placed position (a ++ b) = placed position a ++ placed (position + width a) b := by
  induction a generalizing position with
  | nil => simp [placed]
  | cons c a ih => rw [List.cons_append, placed, placed, ih, width_cons, List.cons_append,
      Nat.add_assoc]

theorem mem_placed_bounds {position place : Nat} {t : Text} {c : Char}
    (h : (place, c) ∈ placed position t) : position ≤ place ∧ place < position + width t := by
  obtain ⟨front, rest, rfl, rfl⟩ := mem_placed.1 h
  have positive := c.utf8Size_pos
  rw [width_append, width_cons]
  omega

theorem uncoveredFrom_append (position : Nat) (a b : Text) (edits : List Edit) :
    uncoveredFrom position (a ++ b) edits
      = uncoveredFrom position a edits ++ uncoveredFrom (position + width a) b edits := by
  rw [uncoveredFrom, placed_append, List.filter_append, List.map_append]
  rfl

theorem map_snd_placed (position : Nat) (t : Text) : (placed position t).map Prod.snd = t := by
  induction t generalizing position with
  | nil => rfl
  | cons c t ih => rw [placed, List.map_cons, ih]

theorem uncoveredFrom_free {position : Nat} {t : Text} {edits : List Edit}
    (free : ∀ edit ∈ edits, edit.stop ≤ position ∨ position + width t ≤ edit.start) :
    uncoveredFrom position t edits = t := by
  rw [uncoveredFrom, List.filter_eq_self.2, map_snd_placed]
  intro ⟨place, c⟩ inside
  obtain ⟨low, high⟩ := mem_placed_bounds inside
  simp only [Bool.not_eq_true', List.any_eq_false, Bool.and_eq_true, decide_eq_true_eq]
  intro edit member
  have := free edit member
  omega

theorem uncoveredFrom_covered {position : Nat} {t : Text} {edits : List Edit} {edit : Edit}
    (member : edit ∈ edits) (low : edit.start ≤ position) (high : position + width t ≤ edit.stop) :
    uncoveredFrom position t edits = [] := by
  rw [uncoveredFrom, List.filter_eq_nil_iff.2, List.map_nil]
  intro ⟨place, c⟩ inside
  have bounds := mem_placed_bounds inside
  simp only [Bool.not_eq_true', Bool.not_eq_false, List.any_eq_true, Bool.and_eq_true,
    decide_eq_true_eq]
  exact ⟨edit, member, by omega, by omega⟩

theorem uncoveredFrom_passed {position : Nat} {t : Text} {edit : Edit} {more : List Edit}
    (passed : edit.stop ≤ position) :
    uncoveredFrom position t (edit :: more) = uncoveredFrom position t more := by
  rw [uncoveredFrom, uncoveredFrom, List.filter_congr]
  intro ⟨place, c⟩ inside
  have low := (mem_placed_bounds inside).1
  have behind : ¬ place < edit.stop := by omega
  simp [behind]

theorem uncoveredFrom_congr {position : Nat} {t : Text} {a b : List Edit}
    (same : ∀ place, (∃ edit ∈ a, edit.Covers place) ↔ ∃ edit ∈ b, edit.Covers place) :
    uncoveredFrom position t a = uncoveredFrom position t b := by
  have tests : ∀ place : Nat, (a.any fun edit => edit.start ≤ place && place < edit.stop)
      = b.any fun edit => edit.start ≤ place && place < edit.stop := by
    intro place
    rw [Bool.eq_iff_iff]
    simpa [Edit.Covers] using same place
  simp only [uncoveredFrom, tests]

theorem applyFrom_uncovered {t done left : Text} {edits : List Edit} (split : t = done ++ left)
    (takes : ∀ edit ∈ edits, TakesOut t edit) (ordered : InOrder (width done) edits) :
    applyFrom t (width done) edits = uncoveredFrom (width done) left edits := by
  induction edits generalizing done left with
  | nil =>
    rw [applyFrom, uncoveredFrom_free (by simp), split, dropWidth_width_append]
  | cons edit more ih =>
    obtain ⟨⟨front, inside, rest, cut, same⟩, others⟩ := List.forall_mem_cons.1 takes
    obtain ⟨here, ordered⟩ := ordered
    subst same
    obtain ⟨piece, rfl, rfl⟩ := cut_of_width_le (split.symm.trans cut) here
    have taken : t = (done ++ piece ++ inside) ++ rest := by rw [cut, List.append_assoc _ inside]
    have behind := ordered.le_start fun edit member => by
      obtain ⟨_, _, _, -, rfl⟩ := others edit member
      exact width_le_append ..
    have before : uncoveredFrom (width done) piece
        (⟨width (done ++ piece), width (done ++ piece ++ inside), []⟩ :: more) = piece := by
      apply uncoveredFrom_free
      rw [List.forall_mem_cons]
      refine ⟨Or.inr (Nat.le_of_eq (width_append ..).symm), ?_⟩
      intro edit member
      have := behind edit member
      simp only [width_append] at this
      omega
    have gone : uncoveredFrom (width done + width piece) inside
        (⟨width (done ++ piece), width (done ++ piece ++ inside), []⟩ :: more) = [] := by
      apply uncoveredFrom_covered List.mem_cons_self
      · rw [width_append]
      · simp only [width_append, Nat.le_refl]
    have passed : width (done ++ piece ++ inside) ≤ width done + width piece + width inside := by
      rw [width_append, width_append]
    rw [applyFrom_cons split rfl, List.nil_append, ih taken others ordered, uncoveredFrom_append,
      uncoveredFrom_append, before, gone, List.nil_append, uncoveredFrom_passed passed]
    simp only [width_append]

theorem applyEdits_uncovered {t : Text} {edits : List Edit}
    (takes : ∀ edit ∈ edits, TakesOut t edit)
    (nested : ∀ a ∈ edits, ∀ b ∈ edits, a.start ≤ b.start → b.start < a.stop → b.stop ≤ a.stop) :
    applyEdits t edits = uncovered t edits := by
  have counted : ∀ edit ∈ kept edits, TakesOut t edit := fun edit member =>
    takes edit (mem_of_mem_kept member)
  have applied : applyFrom t 0 (kept edits) = uncoveredFrom 0 t (kept edits) :=
    applyFrom_uncovered (List.nil_append t).symm counted (inOrder_keptFrom 0 _)
  rw [applyEdits, applied]
  apply uncoveredFrom_congr
  intro place
  constructor
  · rintro ⟨edit, member, covers⟩
    exact ⟨edit, mem_of_mem_kept member, covers⟩
  · rintro ⟨edit, member, covers⟩
    apply covered_kept member covers
    intro other inside low reaches
    exact Nat.lt_of_lt_of_le covers.2 (nested other inside edit member low reaches)

end ComponentBundle.Bundle

namespace ComponentBundle.Module
open ComponentBundle.Text ComponentBundle.Source ComponentBundle.Bundle

/-- What is taken out of a text whose exports are all named: the word of an exported declaration,
and an export list whole unless `from` is what comes next, be it a word or the start of one. -/
inductive ExportRange (t : Text) : Edit → Prop where
  | declared (before rest : Text) (d : ExportedDeclaration) (split : t = before ++ (d.text ++ rest))
      (found : (width before, d) ∈ phrases exportedDeclaration? ExportedDeclaration.text t)
      (code : inCode (lex t) (width (before ++ d.indent))) :
      ExportRange t ⟨width (before ++ d.indent), width (before ++ d.indent ++ d.keyword), []⟩
  | listed (before rest : Text) (l : ExportList) (split : t = before ++ (l.text ++ rest))
      (found : (width before, l) ∈ phrases exportList? ExportList.text t)
      (code : inCode (lex t) (width (before ++ l.indent)))
      (own : startsWith (trimStart rest) fromKeyword = false) :
      ExportRange t ⟨width before, width (before ++ l.text), []⟩

theorem mem_removals_iff {t : Text} {edit : Edit} : edit ∈ removals t ↔ ExportRange t edit := by
  constructor
  · intro member
    rcases List.mem_append.1 member with declared | listed
    · obtain ⟨⟨place, d⟩, found, rfl⟩ := List.mem_map.1 declared
      obtain ⟨known, code⟩ := List.mem_filter.1 found
      obtain ⟨before, behind, split, rfl, -, read⟩ := of_mem_phrases reads_exportedDeclaration known
      obtain ⟨rest, rfl, -⟩ := exportedDeclaration?_spec read
      simp only [← width_append] at code ⊢
      exact .declared before rest d split known code
    · obtain ⟨⟨place, l⟩, found, rfl⟩ := List.mem_map.1 listed
      obtain ⟨known, both⟩ := List.mem_filter.1 found
      obtain ⟨before, behind, split, rfl, -, read⟩ := of_mem_phrases reads_exportList known
      obtain ⟨rest, rfl⟩ := exportList?_spec read
      have left : dropWidth (width (before ++ l.text)) t = rest := by
        rw [split, ← List.append_assoc, dropWidth_width_append]
      simp only [← width_append, left, Bool.and_eq_true, Bool.not_eq_true'] at both ⊢
      exact .listed before rest l split known both.2 both.1
  · intro range
    cases range with
    | declared before rest d split found code =>
      rw [width_append] at code
      apply List.mem_append_left
      refine List.mem_map.2 ⟨(width before, d), List.mem_filter.2 ⟨found, code⟩, ?_⟩
      simp only [width_append]
    | listed before rest l split found code own =>
      have left : dropWidth (width before + width l.text) t = rest := by
        rw [split, ← width_append, ← List.append_assoc, dropWidth_width_append]
      apply List.mem_append_right
      refine List.mem_map.2 ⟨(width before, l), List.mem_filter.2 ⟨found, ?_⟩, ?_⟩
      · dsimp only
        rw [left, own, ← width_append, code]
        rfl
      · rw [width_append]

theorem ExportRange.takesOut {t : Text} {edit : Edit} (range : ExportRange t edit) :
    TakesOut t edit := by
  cases range with
  | declared before rest d split found code =>
    refine ⟨before ++ d.indent, d.keyword, d.kind ++ (d.name ++ rest), ?_, rfl⟩
    rw [split, ExportedDeclaration.text]
    simp
  | listed before rest l split found code own => exact ⟨before, l.text, rest, split, rfl⟩

theorem mem_of_cut {a b inside rest tail : Text} {c : Char}
    (same : a ++ (inside ++ rest) = b ++ c :: tail) (low : width a ≤ width b)
    (high : width b < width (a ++ inside)) : c ∈ inside := by
  obtain ⟨lead, ending, -, rfl⟩ := char_of_cut same low high
  exact List.mem_append_right _ List.mem_cons_self

theorem exportKeyword_chars {keyword : Text} (spaced : Spaced exportWord keyword) :
    '}' ∉ keyword ∧ ∃ more, keyword = 'e' :: more ∧ 'e' ∉ more := by
  obtain ⟨gap, rfl, -, blank⟩ := spaced
  have other : ∀ c, isBlank c = false → c ∉ gap := by
    intro c visible inside
    rw [blank c inside] at visible
    contradiction
  refine ⟨?_, exportWord.tail ++ gap, rfl, ?_⟩
  · rw [List.mem_append, not_or]
    exact ⟨by decide, other _ (by decide)⟩
  · rw [List.mem_append, not_or]
    exact ⟨by decide, other _ (by decide)⟩

theorem ExportedWord.not_brace {kind : Text} (form : ExportedWord kind) :
    kind.head? ≠ some '{' := by
  cases form with
  | ofFunction asynchrony gap maybe form =>
    have first : (functionWord ++ gap).head? = some 'f' := rfl
    obtain ⟨d, head, d_⟩ := head?_maybe maybe first
    rw [head]
    rcases d_ with rfl | rfl <;> decide
  | ofBinding word gap known blank =>
    have heads : ∀ word ∈ bindingWords, ∃ c, word.head? = some c ∧ c ≠ '{' := by
      simp [bindingWords, classWord]
    obtain ⟨c, head, other⟩ := heads word known
    rw [List.head?_append, head]
    simpa using other

theorem ExportedWord.apart_from_list {keyword kind more gap left : Text}
    (spaced : Spaced exportWord keyword) (form : ExportedWord kind) (blank : ∀ c ∈ gap, isBlank c) :
    keyword ++ (kind ++ more) ≠ exportWord ++ (gap ++ '{' :: left) := by
  obtain ⟨space, rfl, -, spaceBlank⟩ := spaced
  intro same
  rw [List.append_assoc, List.append_cancel_left_eq] at same
  obtain ⟨e, head, -, visible⟩ := form.head
  have first : (kind ++ more).head? = some e := by rw [List.head?_append, head, Option.some_or]
  have shown : (kind ++ more).head?.any isBlank = false := by
    rw [first]
    exact visible
  have read := blanks_append spaceBlank shown
  rw [same, blanks_append blank rfl] at read
  obtain ⟨-, behind⟩ := Prod.mk.inj read
  rw [← behind, List.head?_cons, ← head] at first
  exact form.not_brace first.symm

theorem optionalLineEnd_plain (t : Text) : 'e' ∉ (optionalLineEnd t).1 := by
  unfold optionalLineEnd
  split <;> simp

theorem not_mem_indentation (t : Text) : 'e' ∉ (indentation t).1 := by
  intro inside
  exact absurd ((indentation_spec t).2.1 'e' inside) (by decide)

theorem exportList?_parts {t : Text} {l : ExportList} (h : exportList? t = some l) :
    (∃ gap, l.opening = exportWord ++ (gap ++ ['{']) ∧ ∀ c ∈ gap, isBlank c) ∧
      ∃ ending, l.closing = '}' :: ending ∧ 'e' ∉ ending := by
  simp only [exportList?, bind, Option.bind_eq_some_iff, Prod.exists, word?_eq_some_iff] at h
  obtain ⟨_, _, ⟨rfl, -⟩, _, _, ⟨rfl, -⟩, _, closed, ⟨rfl, -⟩, same⟩ := h
  obtain rfl := Option.some.inj same
  refine ⟨⟨_, rfl, (blanks_spec _).2.1⟩, (indentation closed).1 ++ (_ ++ (_ ++ _)), rfl, ?_⟩
  have mark : 'e' ∉ (optionalChar ';' (indentation closed).2).1 := by
    rcases (optionalChar_spec ';' (indentation closed).2).2 with none_ | semicolon
    · simp [none_]
    · simp [semicolon]
  simp only [List.mem_append, not_or]
  exact ⟨not_mem_indentation _, mark, not_mem_indentation _, optionalLineEnd_plain _⟩

theorem read_of_mem_phrases {α : Type} {read : Text → Option α} {textOf : α → Text}
    (reads : Reads read textOf) {t before behind : Text} {x : α} (split : t = before ++ behind)
    (found : (width before, x) ∈ phrases read textOf t) : read behind = some x := by
  obtain ⟨front, rest, cut, place, -, here⟩ := of_mem_phrases reads found
  rwa [(append_inj_of_width (split.symm.trans cut) place).2]

section Nested

variable {t before rest before' rest' : Text} {d : ExportedDeclaration} {l : ExportList}

theorem declared_in_list (list : exportList? (l.text ++ rest) = some l)
    (split : t = before ++ (l.text ++ rest)) (formed : d.Formed rest')
    (split' : t = before' ++ (d.text ++ rest'))
    (reaches : width (before' ++ d.indent) < width (before ++ l.text)) :
    width (before' ++ d.indent ++ d.keyword) ≤ width (before ++ l.text) := by
  obtain ⟨-, ending, closing, plain⟩ := exportList?_parts list
  obtain ⟨brace, more, keyword, -⟩ := exportKeyword_chars formed.keyword
  have whole : t = (before ++ (l.indent ++ (l.opening ++ l.items))) ++ '}' :: (ending ++ rest) := by
    rw [split, ExportList.text, closing]
    simp
  have word : t = (before' ++ d.indent) ++ (d.keyword ++ (d.kind ++ (d.name ++ rest'))) := by
    rw [split', ExportedDeclaration.text]
    simp
  have listWidth : width (before ++ l.text)
      = width (before ++ (l.indent ++ (l.opening ++ l.items))) + 1 + width ending := by
    rw [ExportList.text, closing]
    have one : Char.utf8Size '}' = 1 := by decide
    simp only [width_append, width_cons]
    omega
  by_contra beyond
  rcases Nat.lt_or_ge (width (before ++ (l.indent ++ (l.opening ++ l.items))))
    (width (before' ++ d.indent)) with later | earlier
  · have inEnding : 'e' ∈ ending := by
      have left : before ++ (l.indent ++ (l.opening ++ l.items)) ++ ['}'] ++ (ending ++ rest)
          = (before' ++ d.indent) ++ 'e' :: (more ++ (d.kind ++ (d.name ++ rest'))) := by
        rw [← List.cons_append, ← keyword, ← word, whole]
        simp
      have one : Char.utf8Size '}' = 1 := by decide
      apply mem_of_cut left
      · rw [width_append _ ['}'], width_cons, width_nil]
        omega
      · rw [width_append _ ending, width_append _ ['}'], width_cons, width_nil]
        omega
    exact plain inEnding
  · exact brace (mem_of_cut (word.symm.trans whole) earlier (by omega))

theorem list_apart_from_declared (list : exportList? (l.text ++ rest) = some l)
    (split : t = before ++ (l.text ++ rest)) (formed : d.Formed rest')
    (split' : t = before' ++ (d.text ++ rest')) (low : width (before' ++ d.indent) ≤ width before)
    (reaches : width before + width l.indent < width (before' ++ d.indent ++ d.keyword)) :
    False := by
  obtain ⟨⟨gap, opening, blank⟩, -⟩ := exportList?_parts list
  obtain ⟨-, more, letters, plain⟩ := exportKeyword_chars formed.keyword
  have place : t = (before ++ l.indent) ++ (exportWord ++ (gap ++ '{' :: (l.items ++
      (l.closing ++ rest)))) := by
    rw [split, ExportList.text, opening]
    simp
  have word : t = (before' ++ d.indent) ++ (d.keyword ++ (d.kind ++ (d.name ++ rest'))) := by
    rw [split', ExportedDeclaration.text]
    simp
  rw [← width_append] at reaches
  have le : width (before' ++ d.indent) ≤ width (before ++ l.indent) := by
    rw [width_append before]
    omega
  obtain ⟨lead, same, tail⟩ := cut_of_width_le (word.symm.trans place) le
  cases lead with
  | cons c lead =>
    have inMore : 'e' ∈ more := by
      rw [letters, List.cons_append, List.cons_append] at tail
      obtain ⟨rfl, behind⟩ := List.cons.inj tail
      have cut : [] ++ (more ++ (d.kind ++ (d.name ++ rest'))) = lead ++ 'e' :: (exportWord.tail ++
          (gap ++ '{' :: (l.items ++ (l.closing ++ rest)))) := behind
      apply mem_of_cut cut (Nat.zero_le _)
      rw [same, letters] at reaches
      simp only [width_append, width_cons, List.nil_append] at reaches ⊢
      omega
    exact plain inMore
  | nil =>
    exact ExportedWord.apart_from_list formed.keyword formed.kind blank tail

end Nested

theorem exportedDeclaration_formed {t before rest : Text} {d : ExportedDeclaration}
    (split : t = before ++ (d.text ++ rest))
    (found : (width before, d) ∈ phrases exportedDeclaration? ExportedDeclaration.text t) :
    d.Formed rest := by
  have read := read_of_mem_phrases reads_exportedDeclaration split found
  obtain ⟨behind, same, formed⟩ := exportedDeclaration?_spec read
  rwa [List.append_cancel_left same]

theorem ExportRange.nested {t : Text} {a b : Edit} (first : ExportRange t a)
    (second : ExportRange t b) (low : a.start ≤ b.start) (reaches : b.start < a.stop) :
    b.stop ≤ a.stop := by
  cases first with
  | declared before rest d split found code =>
    cases second with
    | declared before' rest' d' split' found' code' =>
      rcases phrases_apart reads_exportedDeclaration found found' with same | earlier | later
      · obtain ⟨place, rfl⟩ := Prod.mk.inj same
        simp only [width_append, place, Nat.le_refl]
      · simp only [ExportedDeclaration.text, width_append] at *
        omega
      · simp only [ExportedDeclaration.text, width_append] at *
        omega
    | listed before' rest' l split' found' code' own =>
      have list := read_of_mem_phrases reads_exportList split' found'
      have formed := exportedDeclaration_formed split found
      have inside :
          (⟨width (before ++ d.indent), width (before ++ d.indent ++ d.keyword), []⟩ : Edit)
            ∈ removals t := mem_removals_iff.2 (.declared before rest d split found code)
      have high := removal_over_list found' inside low reaches
      exact (list_apart_from_declared list split' formed split low high).elim
  | listed before rest l split found code own =>
    cases second with
    | declared before' rest' d split' found' code' =>
      have list := read_of_mem_phrases reads_exportList split found
      exact declared_in_list list split (exportedDeclaration_formed split' found') split' reaches
    | listed before' rest' l' split' found' code' own' =>
      rcases phrases_apart reads_exportList found found' with same | earlier | later
      · obtain ⟨place, rfl⟩ := Prod.mk.inj same
        simp only [width_append, place, Nat.le_refl]
      · simp only [width_append] at *
        omega
      · simp only [width_append] at *
        omega

theorem namedUnit_preamble (t : Text) :
    (namedUnit t (lex t)).preamble = uncovered t (removals t) := by
  apply applyEdits_uncovered
  · exact fun edit member => (mem_removals_iff.1 member).takesOut
  · exact fun a first b second => (mem_removals_iff.1 first).nested (mem_removals_iff.1 second)

end ComponentBundle.Module
