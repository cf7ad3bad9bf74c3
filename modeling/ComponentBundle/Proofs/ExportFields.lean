import Mathlib.Data.List.Sort
import ComponentBundle.Proofs.KeptSource
import ComponentBundle.Proofs.MemberLists

/-!
The object of a module whose exports are all named, and what its source keeps. The module is
written in parts: its exported declarations and export lists, and whatever stands between them.
-/
namespace ComponentBundle.Module
open ComponentBundle.Text ComponentBundle.Source ComponentBundle.Bundle

/-- An exported declaration goes through the first name that it declares. -/
inductive SourcePart where
  | plain (text : Text)
  | declared (d : ExportedDeclaration)
  | listed (l : ExportList) (members : MemberList)

namespace SourcePart

def text : SourcePart → Text
  | plain text => text
  | declared d => d.text
  | listed l _ => l.text

def left : SourcePart → Text
  | plain text => text
  | declared d => d.indent ++ (d.kind ++ d.name)
  | listed _ _ => []

def declaration? : SourcePart → Option ExportedDeclaration
  | declared d => some d
  | _ => none

def list? : SourcePart → Option ExportList
  | listed l _ => some l
  | _ => none

def names : SourcePart → List Text
  | declared d => [d.name]
  | _ => []

def fields : SourcePart → List Text
  | listed _ members => members.members.map Member.field
  | _ => []

def edit? (position : Nat) : SourcePart → Option Edit
  | plain _ => none
  | declared d =>
    some ⟨position + width d.indent, position + width d.indent + width d.keyword, []⟩
  | listed l _ => some ⟨position, position + width l.text, []⟩

end SourcePart

def written (parts : List SourcePart) : Text := parts.flatMap SourcePart.text

theorem written_append (a b : List SourcePart) : written (a ++ b) = written a ++ written b :=
  List.flatMap_append

theorem written_cons (part : SourcePart) (more : List SourcePart) :
    written (part :: more) = part.text ++ written more := List.flatMap_cons

theorem written_split {parts front behind : List SourcePart} {part : SourcePart}
    (split : parts = front ++ part :: behind) :
    written parts = written front ++ (part.text ++ written behind) := by
  rw [split, written_append, written_cons]

section Found

variable {α : Type} {read : Text → Option α} {textOf : α → Text} {pick : SourcePart → Option α}

def placedParts (pick : SourcePart → Option α) (position : Nat) :
    List SourcePart → List (Nat × α)
  | [] => []
  | part :: more =>
    ((pick part).map (position, ·)).toList ++ placedParts pick (position + width part.text) more

theorem mem_placedParts {position place : Nat} {x : α} {parts : List SourcePart} :
    (place, x) ∈ placedParts pick position parts ↔ ∃ front part behind,
      parts = front ++ part :: behind ∧ pick part = some x ∧
        place = position + width (written front) := by
  induction parts generalizing position with
  | nil => simp [placedParts]
  | cons part more ih =>
    rw [placedParts, List.mem_append, ih, Option.mem_toList, Option.map_eq_some_iff]
    constructor
    · rintro (⟨y, found, same⟩ | ⟨front, later, behind, rfl, found, rfl⟩)
      · obtain ⟨rfl, rfl⟩ := Prod.mk.inj same
        exact ⟨[], part, more, rfl, found, rfl⟩
      · refine ⟨part :: front, later, behind, rfl, found, ?_⟩
        rw [written_cons, width_append, Nat.add_assoc]
    · rintro ⟨front, later, behind, same, found, rfl⟩
      cases front with
      | nil =>
        obtain ⟨rfl, rfl⟩ := List.cons.inj same
        exact Or.inl ⟨x, found, rfl⟩
      | cons first front =>
        obtain ⟨rfl, rfl⟩ := List.cons.inj same
        refine Or.inr ⟨front, later, behind, rfl, found, ?_⟩
        rw [written_cons, width_append, Nat.add_assoc]

theorem placedParts_ordered {parts : List SourcePart}
    (filled : ∀ part ∈ parts, ∀ x, pick part = some x → part.text ≠ []) (position : Nat) :
    (placedParts pick position parts).Pairwise fun a b => a.1 < b.1 := by
  induction parts generalizing position with
  | nil => exact List.Pairwise.nil
  | cons part more ih =>
    obtain ⟨first, others⟩ := List.forall_mem_cons.1 filled
    rw [placedParts]
    cases found : pick part with
    | none => exact ih others _
    | some x =>
      refine List.pairwise_cons.2 ⟨?_, ih others _⟩
      rintro ⟨place, y⟩ later
      obtain ⟨front, -, -, -, -, rfl⟩ := mem_placedParts.1 later
      have positive := width_pos (first x found)
      simp only
      omega

theorem phrases_ordered (reads : Reads read textOf) (t : Text) :
    (phrases read textOf t).Pairwise fun a b => a.1 < b.1 := by
  refine (phrasesFrom_apart reads true 0 t).imp_of_mem ?_
  rintro ⟨place, x⟩ b inside - apart
  obtain ⟨_, _, -, -, -, found⟩ := of_mem_phrasesFrom reads inside
  have positive := width_pos (reads.filled found)
  simp only at apart ⊢
  omega

theorem found_eq_placedParts (reads : Reads read textOf) {keep : Nat × α → Bool}
    {parts : List SourcePart} (spelled : ∀ part x, pick part = some x → part.text = textOf x)
    (stands : ∀ front part behind x, parts = front ++ part :: behind → pick part = some x →
      StandsAt read textOf (written parts) (written front) x ∧ keep (width (written front), x))
    (only : ∀ before rest x, written parts = before ++ rest → startsLine true before →
      read rest = some x → keep (width before, x) →
      ∃ front part behind, parts = front ++ part :: behind ∧ pick part = some x ∧
        before = written front) :
    (phrases read textOf (written parts)).filter keep = placedParts pick 0 parts := by
  have asymmetric : Std.Antisymm fun a b : Nat × α => a.1 < b.1 :=
    ⟨fun _ _ first second => absurd first (Nat.lt_asymm second)⟩
  have irreflexive : Std.Irrefl fun a b : Nat × α => a.1 < b.1 := ⟨fun _ => Nat.lt_irrefl _⟩
  have filled : ∀ part ∈ parts, ∀ x, pick part = some x → part.text ≠ [] := by
    intro part inside x found
    obtain ⟨front, behind, split⟩ := List.append_of_mem inside
    obtain ⟨rest, -, here⟩ := (stands front part behind x split found).1.here
    rw [spelled part x found]
    exact reads.filled here
  apply ((phrases_ordered reads _).filter keep).eq_of_mem_iff (placedParts_ordered filled 0)
  rintro ⟨place, x⟩
  rw [List.mem_filter, mem_placedParts]
  constructor
  · rintro ⟨found, kept⟩
    obtain ⟨before, rest, split, rfl, starts, here⟩ := of_mem_phrases reads found
    obtain ⟨front, part, behind, cut, picked, rfl⟩ := only before rest x split starts here kept
    exact ⟨front, part, behind, cut, picked, (Nat.zero_add _).symm⟩
  · rintro ⟨front, part, behind, cut, picked, rfl⟩
    obtain ⟨standing, kept⟩ := stands front part behind x cut picked
    rw [Nat.zero_add]
    exact ⟨standing.mem_phrases reads, kept⟩

theorem flatMap_placedParts {β : Type} (f : α → List β) (position : Nat)
    (parts : List SourcePart) : (placedParts pick position parts).flatMap (fun x => f x.2)
      = parts.flatMap fun part => (pick part).elim [] f := by
  induction parts generalizing position with
  | nil => rfl
  | cons part more ih =>
    rw [placedParts, List.flatMap_append, ih, List.flatMap_cons]
    cases pick part <;> simp

end Found

/-- A module whose exports are all named, in parts: each of them stands at a line start in code, and
nothing else is read as an export there. -/
structure Exporting (parts : List SourcePart) : Prop where
  named : OnlyNamed (written parts)
  declared : ∀ front d behind, parts = front ++ .declared d :: behind →
    StandsAt exportedDeclaration? ExportedDeclaration.text (written parts) (written front) d ∧
      inCode (lex (written parts)) (width (written front) + width d.indent)
  listed : ∀ front l members behind, parts = front ++ .listed l members :: behind →
    (StandsAt exportList? ExportList.text (written parts) (written front) l ∧
      inCode (lex (written parts)) (width (written front) + width l.indent)) ∧
      startsWith (trimStart (written behind)) fromKeyword = false ∧ l.items = members.text
  noOtherDeclared : ∀ before rest d, written parts = before ++ rest → startsLine true before →
    exportedDeclaration? rest = some d →
    inCode (lex (written parts)) (width before + width d.indent) →
    ∃ front behind, parts = front ++ .declared d :: behind ∧ before = written front
  noOtherListed : ∀ before rest l, written parts = before ++ (l.text ++ rest) →
    startsLine true before → exportList? (l.text ++ rest) = some l →
    inCode (lex (written parts)) (width before + width l.indent) →
    startsWith (trimStart rest) fromKeyword = false →
    ∃ front members behind, parts = front ++ .listed l members :: behind ∧ before = written front

theorem SourcePart.edit?_bounds {part : SourcePart} {position : Nat} {edit : Edit}
    (h : part.edit? position = some edit) :
    position ≤ edit.start ∧ edit.stop ≤ position + width part.text := by
  cases part with
  | plain text => contradiction
  | declared d =>
    obtain rfl := Option.some.inj h
    simp only [text, ExportedDeclaration.text, width_append]
    omega
  | listed l members =>
    obtain rfl := Option.some.inj h
    exact ⟨Nat.le_refl _, Nat.le_refl _⟩

/-- A declaration that is read at a line start, wherever it stands there. -/
def DeclaresLine (t name : Text) : Prop :=
  ∃ before rest d, t = before ++ rest ∧ startsLine true before ∧ declaration? rest = some d ∧
    d.name = name

/-- A name that a module declares, with an export or in a part that is not exported. -/
inductive DeclaredBy (parts : List SourcePart) : Text → Prop where
  | exported (front behind : List SourcePart) (d : ExportedDeclaration) (asynchrony word : Text)
      (split : parts = front ++ .declared d :: behind) (kind : d.kind = asynchrony ++ word)
      (maybe : MaybeSpaced asyncWord asynchrony) (form : DeclarationWord word d.name) :
      DeclaredBy parts d.name
  | plain (front behind : List SourcePart) (inside tail : Text) (d : Declaration)
      (split : parts = front ++ .plain (inside ++ (d.text ++ tail)) :: behind)
      (starts : startsLine true (written front ++ inside))
      (formed : d.Formed (tail ++ written behind)) : DeclaredBy parts d.name

theorem DeclarationWord.of_head {word a b : Text} (form : DeclarationWord word a)
    (same : b.head? = a.head?) : DeclarationWord word b := by
  cases form with
  | ofFunction gap _ form ends =>
    refine .ofFunction gap b form ?_
    rwa [atWordEnd, List.head?_append, same, ← List.head?_append]
  | ofBinding word _ _ known spaced => exact .ofBinding word _ b known spaced

theorem Declaration.Formed.of_head {d : Declaration} {a b : Text} (formed : d.Formed a)
    (same : b.head? = a.head?) : d.Formed b := by
  obtain ⟨named, stops, -⟩ := name?_eq_some_iff.1 formed.name
  refine ⟨formed.lead, formed.keyword.of_head ?_, name?_eq_some_iff.2 ⟨named, ?_, rfl⟩⟩
  · rw [List.head?_append, List.head?_append, same]
  · rw [same]
    exact stops

theorem Named.startsLine {name : Text} (named : Named name) (first : Bool) :
    Module.startsLine first name = false := by
  rw [startsLine_filled (Name.filled ⟨name, named⟩), decide_eq_false_iff_not]
  intro last
  exact absurd (Name.chars ⟨name, named⟩ _ (List.mem_of_getLast? last)) (by decide)

theorem startsLine_mono {a b : Bool} {t : Text} (implies : a = true → b = true)
    (starts : startsLine a t) : startsLine b t := by
  revert starts
  unfold startsLine
  cases t.getLast? with
  | none => exact implies
  | some c => exact id

section Exporting

variable {parts : List SourcePart} (exporting : Exporting parts)

include exporting

theorem Exporting.found_declared :
    (phrases exportedDeclaration? ExportedDeclaration.text (written parts)).filter
      (fun (start, d) => inCode (lex (written parts)) (start + width d.indent))
        = placedParts SourcePart.declaration? 0 parts := by
  apply found_eq_placedParts reads_exportedDeclaration
  · intro part d picked
    cases part with
    | declared e => rw [← Option.some.inj picked]; rfl
    | _ => contradiction
  · intro front part behind d split picked
    cases part with
    | declared e =>
      obtain rfl := Option.some.inj picked
      exact exporting.declared front e behind split
    | _ => contradiction
  · intro before rest d split starts here code
    obtain ⟨front, behind, cut, same⟩ :=
      exporting.noOtherDeclared before rest d split starts here code
    exact ⟨front, _, behind, cut, rfl, same⟩

theorem Exporting.found_listed :
    (phrases exportList? ExportList.text (written parts)).filter
      (fun (start, l) =>
        !startsWith (trimStart (dropWidth (start + width l.text) (written parts))) fromKeyword
          && inCode (lex (written parts)) (start + width l.indent))
        = placedParts SourcePart.list? 0 parts := by
  have behind_ {before rest : Text} {l : ExportList}
      (split : written parts = before ++ (l.text ++ rest)) :
      dropWidth (width before + width l.text) (written parts) = rest := by
    rw [split, ← width_append, ← List.append_assoc, dropWidth_width_append]
  apply found_eq_placedParts reads_exportList
  · intro part l picked
    cases part with
    | listed m members => rw [← Option.some.inj picked]; rfl
    | _ => contradiction
  · intro front part behind l split picked
    cases part with
    | listed m members =>
      obtain rfl := Option.some.inj picked
      obtain ⟨⟨stands, code⟩, own, -⟩ := exporting.listed front m members behind split
      refine ⟨stands, ?_⟩
      have whole : written parts = written front ++ (m.text ++ written behind) :=
        written_split split
      dsimp only
      rw [behind_ whole, own, code]
      rfl
    | _ => contradiction
  · intro before rest l split starts here kept
    obtain ⟨behind, rfl⟩ := exportList?_spec here
    dsimp only at kept
    rw [behind_ split, Bool.and_eq_true, Bool.not_eq_true'] at kept
    obtain ⟨front, members, behind, cut, same⟩ :=
      exporting.noOtherListed before behind l split starts here kept.2 kept.1
    exact ⟨front, _, behind, cut, rfl, same⟩

theorem Exporting.body : (splitUnit (written parts)).body
    = objectLiteral (parts.flatMap SourcePart.names ++ parts.flatMap SourcePart.fields) := by
  have names : (exportedDeclarations (written parts) (lex (written parts))).fields
      = parts.flatMap SourcePart.names := by
    simp only [exportedDeclarations]
    rw [exporting.found_declared, List.map_eq_flatMap,
      flatMap_placedParts fun d : ExportedDeclaration => [d.name]]
    apply List.flatMap_congr
    rintro (text | d | ⟨l, members⟩) - <;> rfl
  have fields : (exportLists (written parts) (lex (written parts))).fields
      = parts.flatMap SourcePart.fields := by
    simp only [exportLists]
    rw [exporting.found_listed,
      flatMap_placedParts fun l : ExportList => (listItems l.items).map listField]
    apply List.flatMap_congr
    rintro (text | d | ⟨l, members⟩) inside
    · rfl
    · rfl
    · obtain ⟨front, behind, split⟩ := List.append_of_mem inside
      obtain ⟨-, -, items⟩ := exporting.listed front l members behind split
      change (listItems l.items).map listField = members.members.map Member.field
      rw [items, members.items, List.map_map]
      exact List.map_congr_left fun member _ => member.listField
  rw [exporting.named.body, exportedFields, names, fields]

theorem Exporting.mem_removals {edit : Edit} : edit ∈ removals (written parts) ↔
    ∃ front part behind, parts = front ++ part :: behind ∧
      part.edit? (width (written front)) = some edit := by
  have declared : edit ∈ (exportedDeclarations (written parts) (lex (written parts))).edits ↔
      ∃ front d behind, parts = front ++ .declared d :: behind ∧
        (SourcePart.declared d).edit? (width (written front)) = some edit := by
    simp only [exportedDeclarations]
    rw [exporting.found_declared, List.mem_map]
    constructor
    · rintro ⟨⟨place, d⟩, found, rfl⟩
      obtain ⟨front, part, behind, split, picked, rfl⟩ := mem_placedParts.1 found
      cases part with
      | declared e =>
        obtain rfl := Option.some.inj picked
        refine ⟨front, e, behind, split, ?_⟩
        rw [SourcePart.edit?, Nat.zero_add]
      | _ => contradiction
    · rintro ⟨front, d, behind, split, same⟩
      have member : (width (written front), d) ∈ placedParts SourcePart.declaration? 0 parts :=
        mem_placedParts.2 ⟨front, _, behind, split, rfl, (Nat.zero_add _).symm⟩
      exact ⟨_, member, Option.some.inj same⟩
  have listed : edit ∈ (exportLists (written parts) (lex (written parts))).edits ↔
      ∃ front l members behind, parts = front ++ .listed l members :: behind ∧
        (SourcePart.listed l members).edit? (width (written front)) = some edit := by
    simp only [exportLists]
    rw [exporting.found_listed, List.mem_map]
    constructor
    · rintro ⟨⟨place, l⟩, found, rfl⟩
      obtain ⟨front, part, behind, split, picked, rfl⟩ := mem_placedParts.1 found
      cases part with
      | listed m members =>
        obtain rfl := Option.some.inj picked
        refine ⟨front, m, members, behind, split, ?_⟩
        rw [SourcePart.edit?, Nat.zero_add]
      | _ => contradiction
    · rintro ⟨front, l, members, behind, split, same⟩
      have member : (width (written front), l) ∈ placedParts SourcePart.list? 0 parts :=
        mem_placedParts.2 ⟨front, _, behind, split, rfl, (Nat.zero_add _).symm⟩
      exact ⟨_, member, Option.some.inj same⟩
  rw [removals, List.mem_append, declared, listed]
  constructor
  · rintro (⟨front, d, behind, split, same⟩ | ⟨front, l, members, behind, split, same⟩)
    · exact ⟨front, _, behind, split, same⟩
    · exact ⟨front, _, behind, split, same⟩
  · rintro ⟨front, part, behind, split, same⟩
    cases part with
    | plain text => contradiction
    | declared d => exact Or.inl ⟨front, d, behind, split, same⟩
    | listed l members => exact Or.inr ⟨front, l, members, behind, split, same⟩

theorem Exporting.edit_cases {front behind : List SourcePart} {part : SourcePart}
    (split : parts = front ++ part :: behind) {edit : Edit}
    (member : edit ∈ removals (written parts)) :
    part.edit? (width (written front)) = some edit ∨ edit.stop ≤ width (written front) ∨
      width (written front) + width part.text ≤ edit.start := by
  obtain ⟨front', part', behind', split', same⟩ := exporting.mem_removals.1 member
  have bounds := SourcePart.edit?_bounds same
  rcases List.append_eq_append_iff.1 (split.symm.trans split') with
    ⟨extra, rfl, tail⟩ | ⟨extra, rfl, tail⟩
  · cases extra with
    | nil =>
      obtain ⟨rfl, -⟩ := List.cons.inj tail
      rw [List.append_nil] at same
      exact Or.inl same
    | cons first extra =>
      obtain ⟨rfl, -⟩ := List.cons.inj tail
      rw [written_append, written_cons, width_append, width_append] at bounds
      omega
  · cases extra with
    | nil =>
      obtain ⟨rfl, -⟩ := List.cons.inj tail
      rw [List.append_nil]
      exact Or.inl same
    | cons first extra =>
      obtain ⟨rfl, -⟩ := List.cons.inj tail
      rw [written_append, written_cons, width_append, width_append]
      omega

theorem Exporting.uncovered_part {front behind : List SourcePart} {part : SourcePart}
    (split : parts = front ++ part :: behind) :
    uncoveredFrom (width (written front)) part.text (removals (written parts)) = part.left := by
  have apart := fun (edit : Edit) (member : edit ∈ removals (written parts)) =>
    exporting.edit_cases split member
  cases part with
  | plain text =>
    apply uncoveredFrom_free
    intro edit member
    exact (apart edit member).resolve_left (by simp [SourcePart.edit?])
  | declared d =>
    have member := exporting.mem_removals.2 ⟨front, _, behind, split, rfl⟩
    have whole : SourcePart.text (.declared d) =
        d.indent ++ (d.keyword ++ (d.kind ++ d.name)) := rfl
    have indent : uncoveredFrom (width (written front)) d.indent (removals (written parts))
        = d.indent := by
      apply uncoveredFrom_free
      intro edit inside
      rcases apart edit inside with own | other
      · obtain rfl := Option.some.inj own
        exact Or.inr (Nat.le_refl _)
      · rw [whole, width_append] at other
        omega
    have keyword : uncoveredFrom (width (written front) + width d.indent) d.keyword
        (removals (written parts)) = [] :=
      uncoveredFrom_covered member (Nat.le_refl _) (Nat.le_refl _)
    have declared : uncoveredFrom (width (written front) + width d.indent + width d.keyword)
        (d.kind ++ d.name) (removals (written parts)) = d.kind ++ d.name := by
      apply uncoveredFrom_free
      intro edit inside
      rcases apart edit inside with own | other
      · obtain rfl := Option.some.inj own
        exact Or.inl (Nat.le_refl _)
      · rw [whole, width_append, width_append] at other
        omega
    rw [whole, uncoveredFrom_append, uncoveredFrom_append, indent, keyword, declared]
    rfl
  | listed l members =>
    have member := exporting.mem_removals.2 ⟨front, _, behind, split, rfl⟩
    exact uncoveredFrom_covered member (Nat.le_refl _) (Nat.le_refl _)

theorem Exporting.preamble : (splitUnit (written parts)).preamble
    = parts.flatMap SourcePart.left := by
  have all {front behind : List SourcePart} (split : parts = front ++ behind) :
      uncoveredFrom (width (written front)) (written behind) (removals (written parts))
        = behind.flatMap SourcePart.left := by
    induction behind generalizing front with
    | nil => rfl
    | cons part behind ih =>
      have next : parts = (front ++ [part]) ++ behind := by
        rw [split, List.append_assoc]
        rfl
      have later := ih next
      rw [written_append, written_cons, width_append, width_append] at later
      rw [written_cons, uncoveredFrom_append, exporting.uncovered_part split, List.flatMap_cons]
      exact congrArg (part.left ++ ·) later
  rw [exporting.named.splitUnit, namedUnit_preamble]
  exact all (List.nil_append parts).symm

theorem Exporting.declared_named {front behind : List SourcePart} {d : ExportedDeclaration}
    (split : parts = front ++ .declared d :: behind) : Named d.name := by
  obtain ⟨rest, -, read⟩ := (exporting.declared front d behind split).1.here
  obtain ⟨_, -, formed⟩ := exportedDeclaration?_spec read
  exact (name?_eq_some_iff.1 formed.name).1

theorem Exporting.startsLine_left {front behind : List SourcePart} (split : parts = front ++ behind)
    (starts : startsLine true (written front)) :
    startsLine true (front.flatMap SourcePart.left) := by
  induction front using List.reverseRecOn generalizing behind with
  | nil => rfl
  | append_singleton front part ih =>
    rw [List.append_assoc, List.singleton_append] at split
    have single : [part].flatMap SourcePart.left = part.left := by simp
    rw [List.flatMap_append, single, startsLine_append]
    rw [written_append, written_cons, startsLine_append, startsLine_append] at starts
    cases part with
    | plain text => exact startsLine_mono (ih split) starts
    | declared d =>
      have named := exporting.declared_named split
      rw [SourcePart.text, ExportedDeclaration.text] at starts
      simp only [startsLine_append, named.startsLine] at starts
      contradiction
    | listed l members => exact ih split (exporting.listed front l members behind split).1.1.starts

theorem Exporting.head?_left {front behind : List SourcePart} (split : parts = front ++ behind)
    (within : startsLine true (written front) = false) :
    (behind.flatMap SourcePart.left).head? = (written behind).head? := by
  induction behind generalizing front with
  | nil => rfl
  | cons part behind ih =>
    cases part with
    | plain text =>
      rw [List.flatMap_cons, written_cons, List.head?_append, List.head?_append]
      cases text with
      | nil =>
        have next : parts = (front ++ [.plain []]) ++ behind := by
          rw [split, List.append_assoc]
          rfl
        apply ih next
        rw [written_append, startsLine_append, within]
        rfl
      | cons c text => rfl
    | declared d =>
      rw [(exporting.declared front d behind split).1.starts] at within
      contradiction
    | listed l members =>
      rw [(exporting.listed front l members behind split).1.1.starts] at within
      contradiction

theorem Exporting.declared_kept {name : Text} (declared : DeclaredBy parts name) :
    DeclaresLine (parts.flatMap SourcePart.left) name := by
  cases declared with
  | exported front behind d asynchrony word split kind maybe form =>
    have stands := (exporting.declared front d behind split).1
    have named := exporting.declared_named split
    have here : written parts = written front ++ (d.text ++ written behind) := written_split split
    obtain ⟨rest, cut, read⟩ := stands.here
    obtain rfl := List.append_cancel_left (cut.symm.trans here)
    obtain ⟨more, same, formed⟩ := exportedDeclaration?_spec read
    obtain rfl := List.append_cancel_left same
    have within : startsLine true (written (front ++ [.declared d])) = false := by
      rw [written_append, written_cons, SourcePart.text, ExportedDeclaration.text]
      simp only [startsLine_append, named.startsLine]
      rfl
    have later : parts = (front ++ [.declared d]) ++ behind := by
      rw [split, List.append_assoc]
      rfl
    have heads := exporting.head?_left later within
    have kept : Declaration.Formed ⟨d.indent ++ asynchrony, word, d.name⟩
        (behind.flatMap SourcePart.left) := by
      refine ⟨⟨d.indent, [], asynchrony, rfl, formed.indent, Or.inl rfl, maybe⟩, ?_, ?_⟩
      · exact form.of_head (List.head?_append_of_ne_nil _ (Name.filled ⟨d.name, named⟩))
      · refine name?_eq_some_iff.2 ⟨named, ?_, rfl⟩
        rw [heads]
        exact (name?_eq_some_iff.1 formed.name).2.1
    refine ⟨front.flatMap SourcePart.left, _, _, ?_,
      exporting.startsLine_left split stands.starts, kept.read, rfl⟩
    rw [split, List.flatMap_append, List.flatMap_cons, SourcePart.left, kind, Declaration.text]
    simp only [List.append_assoc]
  | plain front behind inside tail d split starts formed =>
    have named := (name?_eq_some_iff.1 formed.name).1
    have heads : (tail ++ behind.flatMap SourcePart.left).head?
        = (tail ++ written behind).head? := by
      cases tail with
      | nil =>
        have next : parts = (front ++ [.plain (inside ++ (d.text ++ []))]) ++ behind := by
          rw [split, List.append_assoc]
          rfl
        apply exporting.head?_left next
        rw [written_append, written_cons, SourcePart.text, Declaration.text, List.append_nil]
        simp only [startsLine_append, named.startsLine]
        rfl
      | cons c tail => rfl
    refine ⟨front.flatMap SourcePart.left ++ inside, _, _, ?_, ?_, (formed.of_head heads).read, rfl⟩
    · rw [split, List.flatMap_append, List.flatMap_cons, SourcePart.left]
      simp only [List.append_assoc]
    · rw [startsLine_append] at starts ⊢
      exact startsLine_mono (exporting.startsLine_left split) starts

end Exporting

/-- A module whose exports are all named becomes the object of the names that it exports. Of its
source nothing goes but the words of the exported declarations and the export lists, and what it
declares is still declared. A member that is renamed has the form of a field only if the word `as`
stands between spaces. -/
theorem named_exports_kept {parts : List SourcePart} (exporting : Exporting parts) :
    (splitUnit (written parts)).body
        = objectLiteral (parts.flatMap SourcePart.names ++ parts.flatMap SourcePart.fields) ∧
      (splitUnit (written parts)).preamble = parts.flatMap SourcePart.left ∧
      ∀ name, DeclaredBy parts name → DeclaresLine (splitUnit (written parts)).preamble name := by
  refine ⟨exporting.body, exporting.preamble, ?_⟩
  rw [exporting.preamble]
  exact fun name declared => exporting.declared_kept declared

section Only

variable {α : Type} {read : Text → Option α} {textOf : α → Text} {t : Text} {place : Nat}

def ReadOnlyAt (read : Text → Option α) (t : Text) (place : Nat) : Prop :=
  ∀ i ≤ t.length, startsLine true (t.take i) → (read (t.drop i)).isSome → i = place

instance : Decidable (ReadOnlyAt read t place) :=
  inferInstanceAs (Decidable (∀ i ≤ t.length, _))

theorem ReadOnlyAt.eq (only : ReadOnlyAt read t place) {before rest : Text} {x : α}
    (split : t = before ++ rest) (starts : startsLine true before) (found : read rest = some x) :
    before = t.take place ∧ rest = t.drop place := by
  have front : t.take before.length = before := by rw [split, List.take_left]
  have behind : t.drop before.length = rest := by rw [split, List.drop_left]
  have short : before.length ≤ t.length := by
    rw [split, List.length_append]
    exact Nat.le_add_right ..
  obtain rfl := only before.length short (by rwa [front]) (by rw [behind, found]; rfl)
  exact ⟨front.symm, behind.symm⟩

theorem ReadOnlyAt.stands (only : ReadOnlyAt read t place) {x : α}
    (starts : startsLine true (t.take place)) (found : read (t.drop place) = some x) :
    StandsAt read textOf t (t.take place) x where
  starts := starts
  here := ⟨t.drop place, (List.take_append_drop place t).symm, found⟩
  apart := by
    intro earlier rest y split starts found before
    rw [(only.eq split starts found).1] at before
    exact absurd before (Nat.lt_irrefl _)

end Only

def sideName : Name := ⟨"side", by decide, List.all_eq_true.1 (by decide +kernel)⟩

def wideName : Name := ⟨"wide", by decide, List.all_eq_true.1 (by decide +kernel)⟩

def oneSpace : Space := ⟨⟨" ", List.all_eq_true.1 (by decide +kernel)⟩, by decide⟩

def sideParts : List SourcePart :=
  [.declared ⟨[], "export ", "const ", "side"⟩, .plain " = 1;\n",
    .listed ⟨[], "export \x7b", " side as wide ", "\x7d;\n"⟩
      (.last oneSpace.toGap (.renamed sideName oneSpace oneSpace wideName) oneSpace.toGap)]

theorem cut_of_three {a b c part : SourcePart} {front behind : List SourcePart}
    (split : [a, b, c] = front ++ part :: behind) :
    front = [] ∧ part = a ∧ behind = [b, c] ∨ front = [a] ∧ part = b ∧ behind = [c] ∨
      front = [a, b] ∧ part = c ∧ behind = [] := by
  rcases front with _ | ⟨x, _ | ⟨y, _ | ⟨z, front⟩⟩⟩
  · obtain ⟨rfl, rfl⟩ := List.cons.inj split
    exact Or.inl ⟨rfl, rfl, rfl⟩
  · simp only [List.cons_append, List.nil_append, List.cons.injEq] at split
    obtain ⟨rfl, rfl, rfl⟩ := split
    exact Or.inr (Or.inl ⟨rfl, rfl, rfl⟩)
  · simp only [List.cons_append, List.nil_append, List.cons.injEq] at split
    obtain ⟨rfl, rfl, rfl, rfl⟩ := split
    exact Or.inr (Or.inr ⟨rfl, rfl, rfl⟩)
  · simp at split

theorem sideParts_exporting : Exporting sideParts where
  named := ⟨by decide +kernel, by decide +kernel⟩
  declared := by
    intro front d behind split
    rcases cut_of_three split with ⟨rfl, same, rfl⟩ | ⟨rfl, same, rfl⟩ | ⟨rfl, same, rfl⟩
    · obtain rfl := SourcePart.declared.inj same
      exact ⟨.atStart (by decide +kernel), by decide +kernel⟩
    · contradiction
    · contradiction
  listed := by
    have only : ReadOnlyAt exportList? (written sideParts) 23 := by decide +kernel
    intro front l members behind split
    rcases cut_of_three split with ⟨rfl, same, rfl⟩ | ⟨rfl, same, rfl⟩ | ⟨rfl, same, rfl⟩
    · contradiction
    · contradiction
    · obtain ⟨rfl, rfl⟩ := SourcePart.listed.inj same
      have front : written (sideParts.take 2) = (written sideParts).take 23 := by decide +kernel
      refine ⟨⟨?_, by decide +kernel⟩, by decide +kernel, by decide +kernel⟩
      exact front ▸ only.stands (by decide +kernel) (by decide +kernel)
  noOtherDeclared := by
    have only : ReadOnlyAt exportedDeclaration? (written sideParts) 0 := by decide +kernel
    have here : exportedDeclaration? ((written sideParts).drop 0)
        = some ⟨[], "export ", "const ", "side"⟩ := by decide +kernel
    intro before rest d split starts found code
    obtain ⟨rfl, rfl⟩ := only.eq split starts found
    obtain rfl := Option.some.inj (here.symm.trans found)
    exact ⟨[], _, rfl, rfl⟩
  noOtherListed := by
    have only : ReadOnlyAt exportList? (written sideParts) 23 := by decide +kernel
    have here : exportList? ((written sideParts).drop 23)
        = some ⟨[], "export \x7b", " side as wide ", "\x7d;\n"⟩ := by decide +kernel
    have front : written (sideParts.take 2) = (written sideParts).take 23 := by decide +kernel
    intro before rest l split starts found code own
    obtain ⟨rfl, same⟩ := only.eq split starts found
    rw [same] at found
    obtain rfl := Option.some.inj (here.symm.trans found)
    exact ⟨sideParts.take 2, _, [], rfl, front.symm⟩

theorem side_exported_twice :
    written sideParts = "export const side = 1;\nexport \x7b side as wide \x7d;\n" ∧
      (splitUnit (written sideParts)).body = "\x7b side, wide: side \x7d" ∧
      (splitUnit (written sideParts)).preamble = "const side = 1;\n" ∧
      DeclaresLine (splitUnit (written sideParts)).preamble "side" := by
  obtain ⟨body, preamble, kept⟩ := named_exports_kept sideParts_exporting
  have object : objectLiteral
      (sideParts.flatMap SourcePart.names ++ sideParts.flatMap SourcePart.fields)
        = "\x7b side, wide: side \x7d" := by decide +kernel
  have left : sideParts.flatMap SourcePart.left = "const side = 1;\n" := by decide +kernel
  refine ⟨by decide +kernel, body.trans object, preamble.trans left, kept _ ?_⟩
  refine .exported [] _ _ [] "const " rfl rfl (Or.inl rfl) ?_
  exact .ofBinding ['c', 'o', 'n', 's', 't'] _ _ (by decide) ⟨[' '], rfl, by decide,
    List.forall_mem_singleton.2 (by decide)⟩

theorem exported_names_lost :
    splitUnit "const side = 1;\nexport \x7b side\tas wide \x7d;\n"
        = ⟨"const side = 1;\n", "\x7b side\tas wide \x7d", [], none⟩ ∧
      splitUnit "export const a = 1, b = 2;" = ⟨"const a = 1, b = 2;", "\x7b a \x7d", [], none⟩ ∧
      splitUnit "/*\nexport \x7b\n*/\nconst a = 1;\nexport \x7b a \x7d;\n"
        = ⟨"/*\nexport \x7b\n*/\nconst a = 1;\nexport \x7b a \x7d;\n", "\x7b\x7d", [], none⟩ := by
  decide +kernel

end ComponentBundle.Module
