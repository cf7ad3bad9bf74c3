import ComponentBundle.Proofs.KeptEdits
import ComponentBundle.Proofs.Relinking
import ComponentBundle.Proofs.SegmentPlaces

/-!
References by name. A name is redirected where it stands as a whole in code or markup; no other
span is touched, and between the places everything stays. Only what a dot precedes is left alone,
and the last dot of a spread is taken for one of a member.
-/
namespace ComponentBundle.Text

theorem occurrencesFrom_apart (needle : Text) (previous : Option Char) (start : Nat) (t : Text) :
    (occurrencesFrom needle previous start t).Pairwise
      fun a b => a.start + width needle ≤ b.start := by
  fun_induction occurrencesFrom needle previous start t with
  | case3 previous start c t filled rest found ih =>
    refine List.pairwise_cons.2 ⟨?_, ih⟩
    intro place later
    obtain ⟨-, front, -, -, here, -, -⟩ := split_of_mem_occurrencesFrom later
    rw [here]
    exact Nat.le_add_right ..
  | case4 previous start c t filled found ih => exact ih
  | _ => exact List.Pairwise.nil

theorem getLast?_any_of_append {p : Char → Bool} {a b : Text}
    (apart : (a ++ b).getLast?.any p = false) : b.getLast?.any p = false := by
  rw [List.getLast?_append] at apart
  cases last : b.getLast? with
  | none => rfl
  | some d => rwa [last] at apart

theorem getLast?_cons_or (c : Char) (t : Text) (previous : Option Char) :
    (c :: t).getLast?.or previous = t.getLast?.or (some c) := by
  rw [List.getLast?_cons, Option.some_or]
  cases t.getLast? <;> rfl

theorem mem_occurrencesFrom {p : Char → Bool} {needle : Text} (filled : needle ≠ [])
    (chars : ∀ c ∈ needle, p c) (previous : Option Char) (start : Nat) {t front rest : Text}
    (split : t = front ++ (needle ++ rest)) (apart : front.getLast?.any p = false) :
    ⟨start + width front, front.getLast?.or previous, rest.head?⟩
      ∈ occurrencesFrom needle previous start t := by
  fun_induction occurrencesFrom needle previous start t generalizing front with
  | case1 => simp_all
  | case2 => simp_all
  | case3 previous start c t _ behind found ih =>
    rw [after?_eq_some_iff.1 found] at split
    by_cases first : front = []
    · subst first
      obtain rfl : behind = rest := List.append_cancel_left split
      exact List.mem_cons_self
    · have ends := List.getLast?_eq_some_getLast first
      rcases List.append_eq_append_iff.1 split with ⟨extra, rfl, rfl⟩ | ⟨extra, same, -⟩
      · have later := ih rfl (getLast?_any_of_append apart)
        rw [width_append, ← Nat.add_assoc, List.getLast?_append, Option.or_assoc,
          List.getLast?_eq_some_getLast filled, Option.some_or]
        rw [List.getLast?_eq_some_getLast filled] at later
        exact List.mem_cons_of_mem _ later
      · have inside : front.getLast first ∈ needle := by
          rw [same]
          exact List.mem_append_left _ (List.getLast_mem first)
        rw [ends, Option.any_some, chars _ inside] at apart
        contradiction
  | case4 previous start c t _ missing ih =>
    cases front with
    | nil =>
      rw [split, List.nil_append, after?_eq_some_iff.2 rfl] at missing
      contradiction
    | cons d front =>
      obtain ⟨rfl, rfl⟩ := List.cons.inj split
      rw [width_cons, ← Nat.add_assoc, getLast?_cons_or]
      rw [← List.singleton_append] at apart
      exact ih rfl (getLast?_any_of_append apart)

end ComponentBundle.Text

namespace ComponentBundle.Bundle
open ComponentBundle.Text ComponentBundle.Source ComponentBundle.Module ComponentBundle.Project

def outsideFrom (t : Text) (cursor : Nat) : List Edit → List Text
  | [] => [dropWidth cursor t]
  | edit :: more => slice t cursor edit.start :: outsideFrom t edit.stop more

def outside (t : Text) (edits : List Edit) : List Text := outsideFrom t 0 edits

def Replaces (t word : Text) (edit : Edit) : Prop :=
  ∃ front rest, t = front ++ (word ++ rest) ∧ edit.start = width front ∧
    edit.stop = width front + width word

theorem join_outsideFrom_cons (mark : Text) (t : Text) (cursor : Nat) (edit : Edit)
    (more : List Edit) : join mark (outsideFrom t cursor (edit :: more))
      = slice t cursor edit.start ++ (mark ++ join mark (outsideFrom t edit.stop more)) := by
  cases more <;> simp [outsideFrom, join]

theorem applyFrom_eq_join {target : Text} {edits : List Edit}
    (same : ∀ edit ∈ edits, edit.text = target) (t : Text) (cursor : Nat) :
    applyFrom t cursor edits = join target (outsideFrom t cursor edits) := by
  induction edits generalizing cursor with
  | nil => simp [applyFrom, outsideFrom, join]
  | cons edit more ih =>
    obtain ⟨first, others⟩ := List.forall_mem_cons.1 same
    rw [applyFrom, join_outsideFrom_cons, first, ih others]

theorem join_outsideFrom {t word done left : Text} {edits : List Edit} (split : t = done ++ left)
    (replaces : ∀ edit ∈ edits, Replaces t word edit)
    (apart : edits.Pairwise fun a b => a.stop ≤ b.start)
    (behind : ∀ edit ∈ edits, width done ≤ edit.start) :
    join word (outsideFrom t (width done) edits) = left := by
  induction edits generalizing done left with
  | nil => simp [outsideFrom, join, split, dropWidth_width_append]
  | cons edit more ih =>
    obtain ⟨⟨front, rest, cut, start, stop⟩, others⟩ := List.forall_mem_cons.1 replaces
    obtain ⟨first, apart⟩ := List.pairwise_cons.1 apart
    have low := behind edit List.mem_cons_self
    rw [start] at low
    obtain ⟨piece, rfl, rfl⟩ := cut_of_width_le (split.symm.trans cut) low
    have taken : t = (done ++ piece ++ word) ++ rest := by rw [cut, List.append_assoc _ word]
    rw [← width_append] at stop
    rw [stop] at first
    have copied : slice t (width done) (width (done ++ piece)) = piece := by
      rw [split, width_append, slice_middle]
    rw [join_outsideFrom_cons, start, stop, copied, ih taken others apart first]

theorem infix_of_outsideFrom {t word done left front kept_ rest : Text} {edits : List Edit}
    (split : t = done ++ left) (cut : t = front ++ (kept_ ++ rest))
    (replaces : ∀ edit ∈ edits, Replaces t word edit) (low : width done ≤ width front)
    (apart : ∀ edit ∈ edits, edit.stop ≤ width front ∨ width front + width kept_ ≤ edit.start) :
    ∃ piece ∈ outsideFrom t (width done) edits, kept_ <:+: piece := by
  induction edits generalizing done left with
  | nil =>
    obtain ⟨lead, rfl, rfl⟩ := cut_of_width_le (split.symm.trans cut) low
    refine ⟨_, List.mem_cons_self, lead, rest, ?_⟩
    rw [split, dropWidth_width_append, List.append_assoc]
  | cons edit more ih =>
    obtain ⟨⟨before, behind, place, start, stop⟩, others⟩ := List.forall_mem_cons.1 replaces
    obtain ⟨here, apart⟩ := List.forall_mem_cons.1 apart
    rw [outsideFrom, List.exists_mem_cons_iff]
    rcases here with passed | ahead
    · right
      have taken : t = (before ++ word) ++ behind := by rw [place, List.append_assoc]
      rw [← width_append] at stop
      rw [stop] at passed ⊢
      exact ih taken others passed apart
    · left
      have wide : t = (front ++ kept_) ++ rest := by rw [cut, List.append_assoc]
      rw [start, ← width_append] at ahead
      obtain ⟨lead, rfl, -⟩ := cut_of_width_le (split.symm.trans cut) low
      obtain ⟨extra, rfl, -⟩ := cut_of_width_le (wide.symm.trans place) ahead
      refine ⟨lead, extra, ?_⟩
      have copied := slice_middle done (lead ++ (kept_ ++ extra)) (word ++ behind)
      rw [start, place]
      simpa using copied.symm

/-- A name as a program spells it. -/
structure Spelled (name : Text) : Prop where
  filled : name ≠ []
  chars : ∀ c ∈ name, isNameChar c

/-- A name stands as a whole where no character next to it belongs to it. -/
structure WholeAt (t front name rest : Text) : Prop where
  split : t = front ++ (name ++ rest)
  before : front.getLast?.any isNameChar = false
  behind : rest.head?.any isNameChar = false

variable {t name target : Text}

theorem joinsName_eq_false_iff {previous : Option Char} : previous.any joinsName = false ↔
    previous.any isNameChar = false ∧ previous ≠ some '.' ∧ previous ≠ some '@' := by
  cases previous <;> simp [joinsName, and_assoc]

theorem split_of_mem_nameEdits {spans : List Span} {edit : Edit}
    (h : edit ∈ nameEdits spans t name target) : ∃ front rest, WholeAt t front name rest ∧
      front.getLast? ≠ some '.' ∧ front.getLast? ≠ some '@' ∧
      (kindAt? spans (width front)).any hidesNames = false ∧
      edit = ⟨width front, width front + width name, target⟩ := by
  simp only [nameEdits, List.mem_map, List.mem_filter, Bool.and_eq_true, Bool.not_eq_true'] at h
  obtain ⟨place, ⟨found, ⟨before, behind⟩, free⟩, rfl⟩ := h
  obtain ⟨-, front, rest, split, here, previous, next⟩ := split_of_mem_occurrences found
  rw [previous] at before
  rw [next] at behind
  rw [here] at free ⊢
  obtain ⟨apart, dot, at_⟩ := joinsName_eq_false_iff.1 before
  exact ⟨front, rest, ⟨split, apart, behind⟩, dot, at_, free, rfl⟩

theorem mem_nameEdits (spelled : Spelled name) (target : Text) {spans : List Span}
    {front rest : Text}
    (whole : WholeAt t front name rest) (plain : front.getLast? ≠ some '@')
    (free : (kindAt? spans (width front)).any hidesNames = false) :
    ⟨width front, width front + width name, target⟩ ∈ nameEdits spans t name target ↔
      front.getLast? ≠ some '.' := by
  constructor
  · intro member
    obtain ⟨left, right, other, dot, -, -, same⟩ := split_of_mem_nameEdits member
    have equal : width front = width left := congrArg Edit.start same
    rwa [(append_inj_of_width (whole.split.symm.trans other.split) equal).1]
  · intro dot
    have found := mem_occurrencesFrom spelled.filled spelled.chars none 0 whole.split whole.before
    rw [Nat.zero_add, Option.or_none] at found
    simp only [nameEdits, List.mem_map, List.mem_filter, Bool.and_eq_true, Bool.not_eq_true']
    refine ⟨_, ⟨found, ⟨?_, whole.behind⟩, free⟩, rfl⟩
    exact joinsName_eq_false_iff.2 ⟨whole.before, dot, plain⟩

theorem nameEdits_apart (spans : List Span) (t name target : Text) :
    (nameEdits spans t name target).Pairwise fun a b => a.stop ≤ b.start := by
  refine List.Pairwise.map _ ?_ ((occurrencesFrom_apart name none 0 t).filter _)
  exact fun a b apart => apart

theorem replaces_of_mem_nameEdits {spans : List Span} {edit : Edit}
    (h : edit ∈ nameEdits spans t name target) : Replaces t name edit := by
  obtain ⟨front, rest, stands, -, -, -, rfl⟩ := split_of_mem_nameEdits h
  exact ⟨front, rest, stands.split, rfl, rfl⟩

theorem nameEdits_spare_span (spelled : Spelled name) {span : Span} (known : span ∈ spansIn t)
    (hides : hidesNames span.kind) {edit : Edit} (h : edit ∈ nameEdits (spansIn t) t name target) :
    edit.stop ≤ span.start ∨ span.stop ≤ edit.start := by
  obtain ⟨front, rest, stands, -, -, free, rfl⟩ := split_of_mem_nameEdits h
  apply apart_of_name stands.split spelled.chars known
  intro inside
  rw [kindAt?, spanOver?_eq_some_iff.2 ⟨known, inside⟩, Option.map_some, Option.any_some, hides]
    at free
  contradiction

/-- The edits of a name as a program spells it redirect whole occurrences of it, stand in order
and do not overlap. None touches a span that hides names: between the redirected places the text
stays, and every such span stays with it. -/
theorem name_edits_spare_spans (t : Text) {name : Text} (spelled : Spelled name) (target : Text) :
    let edits := nameEdits (spansIn t) t name target
    edits.Pairwise (fun a b => a.stop ≤ b.start) ∧
    (∀ edit ∈ edits, edit.start < edit.stop ∧ ∃ front rest, WholeAt t front name rest ∧
      edit = ⟨width front, width front + width name, target⟩) ∧
    t = join name (outside t edits) ∧ applyEdits t edits = join target (outside t edits) ∧
    ∀ span ∈ spansIn t, hidesNames span.kind →
      (∀ edit ∈ edits, edit.stop ≤ span.start ∨ span.stop ≤ edit.start) ∧
      ∃ piece ∈ outside t edits, slice t span.start span.stop <:+: piece := by
  intro edits
  have apart : edits.Pairwise fun a b => a.stop ≤ b.start := nameEdits_apart ..
  have whole : ∀ edit ∈ edits, edit.start < edit.stop ∧ ∃ front rest, WholeAt t front name rest ∧
      edit = ⟨width front, width front + width name, target⟩ := by
    intro edit member
    obtain ⟨front, rest, stands, -, -, -, rfl⟩ := split_of_mem_nameEdits member
    exact ⟨Nat.lt_add_of_pos_right (width_pos spelled.filled), front, rest, stands, rfl⟩
  have replaces : ∀ edit ∈ edits, Replaces t name edit := fun _ => replaces_of_mem_nameEdits
  refine ⟨apart, whole, ?_, ?_, ?_⟩
  · have start : t = [] ++ t := rfl
    exact (join_outsideFrom start replaces apart fun _ _ => Nat.zero_le _).symm
  · rw [applyEdits, kept_of_apart apart fun edit member => (whole edit member).1]
    apply applyFrom_eq_join
    intro edit member
    obtain ⟨-, front, rest, -, rfl⟩ := whole edit member
    rfl
  · intro span known hides
    have free : ∀ edit ∈ edits, edit.stop ≤ span.start ∨ span.stop ≤ edit.start :=
      fun _ => nameEdits_spare_span spelled known hides
    refine ⟨free, ?_⟩
    obtain ⟨segment, -, -, front, rest, cut, start, stop⟩ :=
      cut_of_mem_extents (mem_spansOf.1 known)
    dsimp only at start stop
    have copied : slice t span.start span.stop = segment.text := by
      rw [start, stop, cut, slice_middle]
    rw [start, stop] at free
    have whole : t = [] ++ t := rfl
    rw [copied]
    exact infix_of_outsideFrom whole cut replaces (Nat.zero_le _) free

theorem spelled_list : Spelled "list" := ⟨by decide, List.all_eq_true.1 (by decide +kernel)⟩

def quotedList : Text := "[list, 'list', list.size]"

theorem quotedList_redirected : Spelled "list" ∧
    applyEdits quotedList (nameEdits (spansIn quotedList) quotedList "list" "Items")
      = "[Items, 'list', Items.size]" := by
  obtain ⟨-, -, -, applied, -⟩ := name_edits_spare_spans quotedList spelled_list "Items"
  refine ⟨spelled_list, ?_⟩
  rw [applied]
  decide +kernel

/-! Every reference to a name is redirected, unless a dot precedes it. -/

def relinkEdits (others : List Identified) (targets : Table) (t : Text) : List Edit :=
  others.flatMap (specifierEdits (spansIn t) t)
    ++ (targets.filter fun (name, target) => name ≠ target).flatMap fun (name, target) =>
      nameEdits (spansIn t) t name target

theorem relink_eq (others : List Identified) (targets : Table) (t : Text) :
    relink others targets t = applyFrom t 0 (kept (relinkEdits others targets t)) := rfl

/-- A name refers to what it is bound to where it stands as a whole in code or markup and is no
argument of a template. -/
structure RefersAt (t front name rest : Text) : Prop extends WholeAt t front name rest where
  seen : inCode (lex t) (width front) ∨ kindAt? (spansIn t) (width front) = some .markup
  plain : front.getLast? ≠ some '@'

variable {front rest : Text}

theorem RefersAt.unhidden (refers : RefersAt t front name rest) :
    (kindAt? (spansIn t) (width front)).any hidesNames = false := by
  rcases refers.seen with code | markup
  · rw [kindAt?_of_inCode code]
    rfl
  · rw [markup]
    rfl

theorem reaches_over_name {word left right : Text} (spelled : Spelled name)
    (split : t = front ++ (name ++ rest)) (cut : t = left ++ (word ++ right))
    (ends : right.head?.any isNameChar = false) (low : width left ≤ width front)
    (high : width front < width left + width word) :
    ∃ lead extra, front = left ++ lead ∧ word = lead ++ (name ++ extra) := by
  obtain ⟨lead, rfl, tail⟩ := cut_of_width_le (cut.symm.trans split) low
  have short : width lead ≤ width word := by
    rw [width_append] at high
    omega
  obtain ⟨ending, rfl, behind⟩ := cut_of_width_le tail.symm short
  rcases List.append_eq_append_iff.1 behind with ⟨extra, rfl, -⟩ | ⟨missing, whole, next⟩
  · exact ⟨lead, extra, rfl, rfl⟩
  · cases missing with
    | nil => exact ⟨lead, [], rfl, by rw [whole, List.append_nil, List.append_nil]⟩
    | cons c missing =>
      have named : isNameChar c := spelled.chars c (by rw [whole]; simp)
      rw [next, List.cons_append, List.head?_cons, Option.any_some, named] at ends
      contradiction

/-- A word with what it becomes: the specifier of another module, or a bound name. -/
def Redirects (others : List Identified) (targets : Table) (word text : Text) : Prop :=
  (∃ other ∈ others, word ∈ other.1.specifiers ∧ text = other.2) ∨ (word, text) ∈ targets

theorem split_of_mem_specifierPlaces {spans : List Span} {specifier : Text}
    {place : PlacedSpecifier} (h : place ∈ specifierPlaces spans specifier t) :
    ∃ left right, t = left ++ (specifier ++ right) ∧ right.head?.any isNameChar = false ∧
      place.start = width left ∧ place.stop = width left + width specifier := by
  obtain ⟨occurrence, member, rfl⟩ := List.mem_map.1 h
  obtain ⟨found, free⟩ := List.mem_filter.1 member
  obtain ⟨-, left, right, split, here, -, next⟩ := split_of_mem_occurrences found
  simp only [Bool.and_eq_true, Bool.not_eq_true', next] at free
  refine ⟨left, right, split, ?_, here, by rw [here]⟩
  cases first : right.head? with
  | none => rfl
  | some c =>
    have apart := free.1.2
    rw [first, Option.any_some] at apart
    simp only [isSpecifierChar, Bool.or_eq_false_iff] at apart
    exact apart.1.1.1.1

theorem split_of_mem_relinkEdits {others : List Identified} {targets : Table} {edit : Edit}
    (h : edit ∈ relinkEdits others targets t) :
    ∃ word left right, Redirects others targets word edit.text ∧ t = left ++ (word ++ right) ∧
      right.head?.any isNameChar = false ∧ edit.start = width left ∧
      edit.stop = width left + width word := by
  rcases List.mem_append.1 h with ofSpecifier | ofName
  · obtain ⟨other, inside, ofOther⟩ := List.mem_flatMap.1 ofSpecifier
    obtain ⟨specifier, known, ofWord⟩ := List.mem_flatMap.1 ofOther
    obtain ⟨place, member, rfl⟩ := List.mem_map.1 ofWord
    obtain ⟨left, right, split, ends, start, stop⟩ := split_of_mem_specifierPlaces member
    exact ⟨specifier, left, right, Or.inl ⟨other, inside, known, rfl⟩, split, ends, start, stop⟩
  · obtain ⟨⟨word, text⟩, inside, member⟩ := List.mem_flatMap.1 ofName
    obtain ⟨left, right, whole, -, -, -, rfl⟩ := split_of_mem_nameEdits member
    exact ⟨word, left, right, Or.inr (List.mem_filter.1 inside).1, whole.split, whole.behind, rfl,
      rfl⟩

/-- A reference is redirected exactly if no dot precedes it, be it one of a member or the last one
of a spread. Of the edits that relinking carries out one then goes over all of the name, for it or
for a longer word that it is a part of. -/
theorem reference_redirected_iff {name : Text} (spelled : Spelled name) {t front rest : Text}
    (refers : RefersAt t front name rest) (target : Text) :
    (⟨width front, width front + width name, target⟩ ∈ nameEdits (spansIn t) t name target ↔
      front.getLast? ≠ some '.') ∧
    ∀ (others : List Identified) (targets : Table), (name, target) ∈ targets → name ≠ target →
      front.getLast? ≠ some '.' →
      let counted := kept (relinkEdits others targets t)
      relink others targets t = applyFrom t 0 counted ∧
      ∃ edit ∈ counted, ∃ lead extra, Redirects others targets (lead ++ (name ++ extra)) edit.text ∧
        edit.start + width lead = width front ∧
        edit.stop = width front + width name + width extra := by
  have found := mem_nameEdits spelled target refers.toWholeAt refers.plain refers.unhidden
  refine ⟨found, ?_⟩
  intro others targets known changed dot
  refine ⟨relink_eq others targets t, ?_⟩
  have member : ⟨width front, width front + width name, target⟩ ∈ relinkEdits others targets t := by
    apply List.mem_append_right
    refine List.mem_flatMap.2 ⟨(name, target), List.mem_filter.2 ⟨known, ?_⟩, found.2 dot⟩
    exact decide_eq_true changed
  have positive := width_pos spelled.filled
  have first : (⟨width front, width front + width name, target⟩ : Edit).Covers (width front) :=
    ⟨Nat.le_refl _, Nat.lt_add_of_pos_right positive⟩
  obtain ⟨edit, counted, low, high⟩ := covered_kept member first fun _ _ _ reaches => reaches
  obtain ⟨word, left, right, redirects, cut, ends, start, stop⟩ :=
    split_of_mem_relinkEdits (mem_of_mem_kept counted)
  rw [start] at low
  rw [stop] at high
  obtain ⟨lead, extra, rfl, rfl⟩ := reaches_over_name spelled refers.split cut ends low high
  refine ⟨edit, counted, lead, extra, redirects, ?_, ?_⟩
  · rw [start, width_append]
  · rw [stop]
    simp only [width_append]
    omega

theorem quotedList_refers : RefersAt quotedList "[" "list" ", 'list', list.size]" where
  split := by decide +kernel
  before := by decide +kernel
  behind := by decide +kernel
  seen := Or.inl (by decide +kernel)
  plain := by decide +kernel

theorem quotedList_reference_redirected :
    Spelled "list" ∧ RefersAt quotedList "[" "list" ", 'list', list.size]" ∧
    ⟨1, 5, "Items"⟩ ∈ nameEdits (spansIn quotedList) quotedList "list" "Items" ∧
    ∃ edit ∈ kept (relinkEdits [] [("list", "Items")] quotedList),
      edit.start ≤ 1 ∧ 5 ≤ edit.stop := by
  obtain ⟨found, redirected⟩ := reference_redirected_iff spelled_list quotedList_refers "Items"
  have dot : ("[" : Text).getLast? ≠ some '.' := by decide
  refine ⟨spelled_list, quotedList_refers, found.2 dot, ?_⟩
  obtain ⟨-, edit, counted, lead, extra, -, start, stop⟩ :=
    redirected [] [("list", "Items")] List.mem_cons_self (by decide +kernel) dot
  have front : width ("[" : Text) = 1 := by decide
  have name : width ("list" : Text) = 4 := by decide
  exact ⟨edit, counted, by omega, by omega⟩

/-! A spread whose last dot is taken for one of a member. -/

def listGraph : ModuleGraph where
  modules := [
    ⟨⟨(⟨⟨"parts"⟩, "app", "gjs"⟩ : Resolver).locate "items.gjs", "export default [1];"⟩,
      ["app/items", "app/items.gjs"]⟩,
    ⟨⟨(⟨⟨"parts"⟩, "app", "gjs"⟩ : Resolver).locate "main.gjs",
      "import list from 'app/items';\nexport default [...list];"⟩, ["app/main", "app/main.gjs"]⟩]
  entry := 1
  warnings := []

def listArtifact : Artifact where
  externals := []
  declarations := [
    ⟨"Items", "items.gjs", [], "[1]", []⟩,
    ⟨"Main", "main.gjs", [], "[...list]", []⟩]
  exported := "Main"

theorem spread_left_behind :
    RefersAt "[...list]" "[..." "list" "]" ∧
    nameEdits (spansIn "[...list]") "[...list]" "list" "Items" = [] ∧
    link listGraph "app" = .ok listArtifact := by
  refine ⟨⟨⟨?_, ?_, ?_⟩, Or.inl ?_, ?_⟩, ?_, ?_⟩ <;> decide +kernel

end ComponentBundle.Bundle
