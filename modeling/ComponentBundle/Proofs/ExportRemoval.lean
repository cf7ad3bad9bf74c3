import ComponentBundle.Proofs.KeptEdits
import ComponentBundle.Proofs.NamedExports
import ComponentBundle.Proofs.RenderedExports
import ComponentBundle.Proofs.SegmentPlaces

/-!
The exports of a module without a default export are taken out of its source: of a declaration
the word goes, and of a list everything. Where every `export` that leads a line is one of these,
none is left.
-/
namespace ComponentBundle.Module
open ComponentBundle.Text ComponentBundle.Source ComponentBundle.Bundle

theorem mem_exportWordsFrom_behind {a b : Text} {fresh : Bool} {position place : Nat}
    (h : place ∈ exportWordsFrom (freshAfter fresh a) (position + width a) b) :
    place ∈ exportWordsFrom fresh position (a ++ b) := by
  rw [mem_exportWordsFrom] at h ⊢
  obtain ⟨before, rest, split, here, starts, word⟩ := h
  refine ⟨a ++ before, rest, ?_, ?_, ?_, word⟩
  · rw [split, List.append_assoc]
  · rw [here, width_append, Nat.add_assoc]
  · rw [freshAfter_append]
    exact starts

theorem exportWordsFrom_bounds {t : Text} {fresh : Bool} {position place : Nat}
    (h : place ∈ exportWordsFrom fresh position t) :
    position ≤ place ∧ place < position + width t := by
  obtain ⟨before, rest, rfl, rfl, -, starts⟩ := mem_exportWordsFrom.1 h
  have filled : rest ≠ [] := by
    intro empty
    rw [empty] at starts
    contradiction
  have positive := width_pos filled
  rw [width_append]
  omega

theorem startsExport_head {c : Char} {t : Text} (h : startsExport (c :: t)) : c = 'e' := by
  obtain ⟨rest, split, -⟩ := startsExport_iff.1 h
  exact (List.cons.inj split).1

theorem exportWordsFrom_of_trimStart {t : Text} (none_ : startsExport (trimStart t) = false)
    (position : Nat) : exportWordsFrom true position t = exportWordsFrom false position t := by
  induction t generalizing position with
  | nil => rfl
  | cons c t ih =>
    have other : startsExport (c :: t) = false := by
      cases found : startsExport (c :: t) with
      | false => rfl
      | true =>
        obtain rfl := startsExport_head found
        rw [trimStart, List.dropWhile_cons_of_neg (by decide), found] at none_
        contradiction
    rw [exportWordsFrom, exportWordsFrom, other]
    by_cases line : c = '\n'
    · rw [line]
      rfl
    · cases blank : isBlank c with
      | false => simp
      | true =>
        rw [trimStart, List.dropWhile_cons_of_pos blank] at none_
        simpa [line] using ih none_ _

theorem freshAfter_tail {fresh : Bool} {a b : Text} (h : freshAfter fresh (a ++ b)) :
    freshAfter true b := by
  rw [freshAfter_append] at h
  cases flag : freshAfter fresh a with
  | true => rwa [flag] at h
  | false =>
    rw [flag] at h
    exact freshAfter_mono h

theorem namesApart_of_fresh {a : Text} (fresh : freshAfter true a) (b : Text) : NamesApart a b := by
  rcases List.eq_nil_or_concat a with rfl | ⟨front, c, rfl⟩
  · exact Or.inl rfl
  · left
    rw [List.concat_eq_append] at fresh ⊢
    rw [freshAfter_append, freshAfter_cons] at fresh
    rw [List.getLast?_append]
    have blank : isBlank c := by
      rcases Bool.or_eq_true_iff.1 fresh with line | both
      · rw [of_decide_eq_true line]
        decide
      · exact (Bool.and_eq_true_iff.1 both).2
    exact not_continuesName_of_blank blank

inductive Removes (t : Text) : Edit → Prop where
  | piece (before inside rest : Text) (split : t = before ++ (inside ++ rest))
      (fresh : freshAfter true before)
      (ends : freshAfter true inside ∨ startsExport (trimStart rest) = false) :
      Removes t ⟨width before, width before + width inside, []⟩

theorem Removes.forward {t : Text} {edit : Edit} (h : Removes t edit) : edit.start ≤ edit.stop := by
  cases h
  exact Nat.le_add_right ..

theorem words_behind {inside rest : Text} {position place : Nat}
    (ends : freshAfter true inside ∨ startsExport (trimStart rest) = false)
    (h : place ∈ exportWordsFrom true (position + width inside) rest) :
    place ∈ exportWordsFrom true position (inside ++ rest) := by
  apply mem_exportWordsFrom_behind
  cases fresh : freshAfter true inside with
  | true => exact h
  | false =>
    rw [fresh] at ends
    rwa [← exportWordsFrom_of_trimStart (ends.resolve_left (by decide))]

theorem exportFree_of_behind {t : Text} {fresh : Bool} {position : Nat} {edits : List Edit}
    (covered : ∀ place ∈ exportWordsFrom fresh position t, ∃ edit ∈ edits, edit.Covers place)
    (behind : ∀ edit ∈ edits, position + width t ≤ edit.start) : ExportFree fresh t := by
  have none_ : ∀ place, place ∉ exportWordsFrom fresh position t := by
    intro place member
    have bound := exportWordsFrom_bounds member
    obtain ⟨edit, known, low, -⟩ := covered place member
    have := behind edit known
    omega
  exact exportWordsFrom_eq_nil_iff.1 (List.eq_nil_iff_forall_not_mem.2 none_)

/-- Where the edits from a position on cover every word `export` that leads a line there, none is
left behind it. A line counts as fresh at this position: what was on it is gone. -/
theorem exportFree_of_covered {t done left : Text} {edits : List Edit} (split : t = done ++ left)
    (removes : ∀ edit ∈ edits, Removes t edit) (ordered : InOrder (width done) edits)
    (covered : ∀ place ∈ exportWordsFrom true (width done) left,
      ∃ edit ∈ edits, edit.Covers place) :
    ExportFree true (applyFrom t (width done) edits) := by
  induction edits generalizing done left with
  | nil =>
    rw [applyFrom, split, dropWidth_width_append]
    exact exportFree_of_behind covered (by simp)
  | cons edit more ih =>
    obtain ⟨first, others⟩ := List.forall_mem_cons.1 removes
    obtain ⟨here, ordered⟩ := ordered
    have behind := ordered.le_start fun edit member => (others edit member).forward
    cases first with
    | piece before inside rest cut fresh ends =>
      dsimp only at here ordered behind
      obtain ⟨piece, rfl, rfl⟩ := cut_of_width_le (split.symm.trans cut) here
      have blank : freshAfter true piece := freshAfter_tail fresh
      have apart := namesApart_of_fresh blank
      have words := exportWordsFrom_append (apart (inside ++ rest)) true (width done)
      rw [blank, ← width_append] at words
      rw [words] at covered
      have free : ExportFree true piece := by
        apply exportFree_of_behind (fun place member => covered place (List.mem_append_left _ member))
        intro edit known
        rw [← width_append]
        rcases List.mem_cons.1 known with rfl | later
        · exact Nat.le_refl _
        · have := behind edit later
          omega
      have later : ExportFree true (applyFrom t (width (done ++ piece ++ inside)) more) := by
        rw [← width_append] at ordered
        have taken : t = (done ++ piece ++ inside) ++ rest := by rw [cut, List.append_assoc _ inside]
        apply ih taken others ordered
        intro place member
        rw [width_append] at member
        have bound := exportWordsFrom_bounds member
        have old := words_behind ends member
        obtain ⟨edit, known, covers⟩ := covered place (List.mem_append_right _ old)
        rcases List.mem_cons.1 known with rfl | later
        · exact absurd covers.2 (Nat.not_lt_of_le bound.1)
        · exact ⟨edit, later, covers⟩
      rw [applyFrom_cons split rfl, List.nil_append, ← width_append]
      apply free.append
      · rw [blank]
        exact later
      · exact apart _

/-! The edits of a module whose exports are all named. -/

theorem freshAfter_startsLine {before : Text} (h : startsLine true before) :
    freshAfter true before := by
  apply freshAfter_endsLine
  unfold startsLine at h
  split at h
  · rename_i empty
    exact Or.inl (List.getLast?_eq_none_iff.1 empty)
  · rename_i c last
    rw [of_decide_eq_true h] at last
    exact Or.inr last

theorem freshAfter_indent {before indent : Text} (starts : startsLine true before)
    (small : ∀ c ∈ indent, isIndent c) : freshAfter true (before ++ indent) := by
  rw [freshAfter_append, freshAfter_startsLine starts]
  exact freshAfter_blank fun c inside => isBlank_of_isIndent (small c inside)

theorem ExportedWord.startsExport {kind : Text} (form : ExportedWord kind) (rest : Text) :
    Module.startsExport (trimStart (kind ++ rest)) = false := by
  obtain ⟨c, head, other, visible⟩ := form.head
  obtain ⟨kind, rfl⟩ := List.head?_eq_some_iff.1 head
  rw [List.cons_append, trimStart, List.dropWhile_cons_of_neg (by simp [visible])]
  rw [Bool.eq_false_iff]
  intro starts
  exact other (startsExport_head starts)

theorem removes_declared {t : Text} {place : Nat} {d : ExportedDeclaration}
    (member : (place, d) ∈ phrases exportedDeclaration? ExportedDeclaration.text t) :
    Removes t ⟨place + width d.indent, place + width d.indent + width d.keyword, []⟩ := by
  obtain ⟨before, behind, split, rfl, starts, read⟩ := of_mem_phrases reads_exportedDeclaration member
  obtain ⟨rest, rfl, formed⟩ := exportedDeclaration?_spec read
  rw [← width_append]
  apply Removes.piece (before ++ d.indent) d.keyword (d.kind ++ (d.name ++ rest))
  · rw [split, ExportedDeclaration.text]
    simp only [List.append_assoc]
  · exact freshAfter_indent starts formed.indent
  · exact Or.inr (formed.kind.startsExport _)

def ExportList.Last (t : Text) (place : Nat) (l : ExportList) : Prop :=
  EndsLine l.text ∨ startsExport (trimStart (dropWidth (place + width l.text) t)) = false

theorem removes_listed {t : Text} {place : Nat} {l : ExportList}
    (member : (place, l) ∈ phrases exportList? ExportList.text t) (last : l.Last t place) :
    Removes t ⟨place, place + width l.text, []⟩ := by
  obtain ⟨before, behind, split, rfl, starts, read⟩ := of_mem_phrases reads_exportList member
  obtain ⟨rest, rfl⟩ := exportList?_spec read
  apply Removes.piece before l.text rest split (freshAfter_startsLine starts)
  apply last.imp freshAfter_endsLine
  intro none_
  rwa [split, ← width_append, ← List.append_assoc, dropWidth_width_append] at none_

theorem exportList?_head {t : Text} {l : ExportList} (h : exportList? t = some l) :
    (∀ c ∈ l.indent, isIndent c) ∧ ∃ more, l.opening = exportWord ++ more := by
  simp only [exportList?, bind, Option.bind_eq_some_iff, Prod.exists, word?_eq_some_iff] at h
  obtain ⟨_, _, ⟨rfl, -⟩, _, _, _, _, _, _, same⟩ := h
  obtain rfl := Option.some.inj same
  exact ⟨(indentation_spec t).2.1, _, rfl⟩

theorem indent_lt_text {t : Text} {l : ExportList} (h : exportList? t = some l) :
    width l.indent < width l.text := by
  obtain ⟨-, more, opening⟩ := exportList?_head h
  have positive : 0 < width exportWord := by decide
  rw [ExportList.text, opening]
  simp only [width_append]
  omega

theorem width_lt_of_cut {before indent word front rest : Text} {c : Char}
    (split : before ++ (indent ++ (exportWord ++ word)) = front ++ rest)
    (small : ∀ c ∈ indent, isIndent c) (behind : width before < width front)
    (head : rest.head? = some c) (other : c ≠ 'e') (visible : isBlank c = false) :
    width before + width indent < width front := by
  by_contra within
  rw [← width_append, Nat.not_lt] at within
  rw [← List.append_assoc] at split
  obtain ⟨extra, longer, rfl⟩ := cut_of_width_le split.symm within
  cases extra with
  | nil => exact other (Option.some.inj head).symm
  | cons d extra =>
    obtain rfl := Option.some.inj head
    obtain ⟨inside, -, rfl⟩ := cut_of_width_le longer (Nat.le_of_lt behind)
    have blank := isBlank_of_isIndent (small d (by simp))
    rw [visible] at blank
    contradiction

def removals (t : Text) : List Edit :=
  (exportedDeclarations t (lex t)).edits ++ (exportLists t (lex t)).edits

theorem mem_removals {t : Text} {edit : Edit} (h : edit ∈ removals t) :
    (∃ place d, (place, d) ∈ phrases exportedDeclaration? ExportedDeclaration.text t ∧
        edit = ⟨place + width d.indent, place + width d.indent + width d.keyword, []⟩) ∨
      ∃ place l, (place, l) ∈ phrases exportList? ExportList.text t ∧
        edit = ⟨place, place + width l.text, []⟩ := by
  rcases List.mem_append.1 h with declared | listed
  · left
    obtain ⟨⟨place, d⟩, found, rfl⟩ := List.mem_map.1 declared
    exact ⟨place, d, (List.mem_filter.1 found).1, rfl⟩
  · right
    obtain ⟨⟨place, l⟩, found, rfl⟩ := List.mem_map.1 listed
    exact ⟨place, l, (List.mem_filter.1 found).1, rfl⟩

/-- The word `export` behind `before` is that of a declaration or of a list that is taken out. -/
inductive TakenOut (t : Text) : Text → Prop where
  | declared (before : Text) (d : ExportedDeclaration)
      (stands : StandsAt exportedDeclaration? ExportedDeclaration.text t before d)
      (code : inCode (lex t) (width before + width d.indent)) : TakenOut t (before ++ d.indent)
  | listed (before : Text) (l : ExportList)
      (stands : StandsAt exportList? ExportList.text t before l)
      (code : inCode (lex t) (width before + width l.indent))
      (own : startsWith (trimStart (dropWidth (width before + width l.text) t)) fromKeyword = false) :
      TakenOut t (before ++ l.indent)

theorem removal_over_list {t : Text} {place : Nat} {l : ExportList} {other : Edit}
    (member : (place, l) ∈ phrases exportList? ExportList.text t) (inside : other ∈ removals t)
    (low : other.start ≤ place) (high : place < other.stop) :
    place + width l.indent < other.stop := by
  obtain ⟨before, behind, split, here, -, read⟩ := of_mem_phrases reads_exportList member
  obtain ⟨rest, rfl⟩ := exportList?_spec read
  obtain ⟨small, more, opening⟩ := exportList?_head read
  rcases mem_removals inside with ⟨start, d, found, rfl⟩ | ⟨start, k, found, rfl⟩
  · obtain ⟨front, back, cut, rfl, -, readBack⟩ := of_mem_phrases reads_exportedDeclaration found
    obtain ⟨tail, rfl, formed⟩ := exportedDeclaration?_spec readBack
    obtain ⟨c, head, notE, visible⟩ := formed.kind.head
    dsimp only at high ⊢
    rw [here, ← width_append, ← width_append] at high
    rw [here, ← width_append front, ← width_append (front ++ d.indent)]
    apply width_lt_of_cut _ small high _ notE visible
    · exact more ++ (l.items ++ (l.closing ++ rest))
    · exact d.kind ++ (d.name ++ tail)
    · rw [ExportList.text, opening] at split
      rw [ExportedDeclaration.text] at cut
      simp only [List.append_assoc] at split cut ⊢
      rw [← split, ← cut]
    · rw [List.head?_append, head, Option.some_or]
  · have shorter := indent_lt_text read
    rcases phrases_apart reads_exportList member found with same | before_ | behind_
    · obtain ⟨rfl, rfl⟩ := Prod.mk.inj same
      dsimp only
      omega
    · dsimp only at *
      omega
    · dsimp only at *
      omega

theorem TakenOut.covered {t before : Text} (h : TakenOut t before) :
    ∃ edit ∈ kept (removals t), edit.Covers (width before) := by
  cases h with
  | declared front d stands code =>
    have member := stands.mem_phrases reads_exportedDeclaration
    obtain ⟨rest, -, read⟩ := stands.here
    obtain ⟨tail, -, formed⟩ := exportedDeclaration?_spec read
    have positive : 0 < width d.keyword := by
      obtain ⟨gap, spaced, -, -⟩ := formed.keyword
      rw [spaced]
      exact width_pos (List.cons_ne_nil _ _)
    have removed : ⟨width front + width d.indent, width front + width d.indent + width d.keyword, []⟩
        ∈ removals t := by
      apply List.mem_append_left
      exact List.mem_map.2 ⟨_, List.mem_filter.2 ⟨member, code⟩, rfl⟩
    rw [width_append]
    apply covered_kept removed
    · constructor
      · exact Nat.le_refl _
      · exact Nat.lt_add_of_pos_right positive
    · intro other _ _ high
      exact high
  | listed front l stands code own =>
    have member := stands.mem_phrases reads_exportList
    obtain ⟨rest, -, read⟩ := stands.here
    have removed : ⟨width front, width front + width l.text, []⟩ ∈ removals t := by
      apply List.mem_append_right
      refine List.mem_map.2 ⟨_, List.mem_filter.2 ⟨member, ?_⟩, rfl⟩
      dsimp only
      rw [own, code]
      rfl
    rw [width_append]
    apply covered_kept removed
    · constructor
      · exact Nat.le_add_right ..
      · exact Nat.add_lt_add_left (indent_lt_text read) _
    · intro other inside low high
      exact removal_over_list member inside low high

/-- A module without a default export all of whose exports are taken out. -/
structure AllTakenOut (t : Text) : Prop extends OnlyNamed t where
  taken : ∀ before rest, t = before ++ rest → freshAfter true before → startsExport rest →
    TakenOut t before
  last : ∀ place l, (place, l) ∈ phrases exportList? ExportList.text t → l.Last t place

theorem AllTakenOut.preamble {t : Text} (h : AllTakenOut t) :
    ExportFree true (splitUnit t).preamble := by
  have free : ExportFree true (applyFrom t (width []) (kept (removals t))) := by
    apply exportFree_of_covered (List.nil_append t).symm
    · intro edit member
      rcases mem_removals (mem_of_mem_kept member) with ⟨place, d, found, rfl⟩ | ⟨place, l, found, rfl⟩
      · exact removes_declared found
      · exact removes_listed found (h.last place l found)
    · exact inOrder_keptFrom 0 _
    · intro place inside
      obtain ⟨before, rest, split, rfl, fresh, starts⟩ := mem_exportWordsFrom.1 inside
      rw [width_nil, Nat.zero_add]
      exact (h.taken before rest split fresh starts).covered
  rw [h.splitUnit]
  exact free

theorem AllTakenOut.epilogue {t : Text} (h : AllTakenOut t) :
    ExportFree true (splitUnit t).epilogue := by
  rw [h.splitUnit]
  exact freeLines_nil.free

end ComponentBundle.Module
