import Mathlib
import ComponentBundle.Proofs.ImportReading
import ComponentBundle.Proofs.LinkTargets

/-!
What linking puts into a text: identifiers of modules and their members. Each stands on one line
and starts with a capital, an underscore or a dollar sign.
-/
namespace ComponentBundle.Text

def isSmall (n : Nat) : Bool := 0x61 ≤ n && n ≤ 0x7A

theorem capitalOf?_not_small {n code : Nat} (h : capitalOf? n = some code) :
    isSmall code = false := by
  obtain ⟨⟨first, last, step, target⟩, found, rfl⟩ := Option.map_eq_some_iff.1 h
  have runs : ∀ run ∈ capitalRuns, run.2.2.2 + (run.2.1 - run.1) < 0x61 ∨ 0x7A < run.2.2.2 := by
    decide +kernel
  have run := runs _ (List.mem_of_find?_eq_some found)
  have inside := List.find?_some found
  simp only [Bool.and_eq_true, decide_eq_true_eq] at run inside
  simp only [isSmall, Bool.and_eq_false_iff, decide_eq_false_iff_not]
  omega

theorem capitalOf?_small {n : Nat} (small : isSmall n) : capitalOf? n ≠ none := by
  simp only [isSmall, Bool.and_eq_true, decide_eq_true_eq] at small
  rw [capitalOf?, ne_eq, Option.map_eq_none_iff, List.find?_eq_none]
  intro absent
  have first := absent _ (List.mem_cons_self : _ ∈ capitalRuns)
  simp only [Bool.and_eq_true, decide_eq_true_eq] at first
  omega

theorem toNat_ofNat_not_small {n : Nat} (h : isSmall n = false) :
    isSmall (Char.ofNat n).toNat = false := by
  rw [Char.ofNat]
  split
  · exact h
  · rfl

theorem upper_head (c : Char) : ∃ d more, upper c = d :: more ∧ isSmall d.toNat = false := by
  unfold upper
  split
  · rename_i codes found
    obtain ⟨before, behind, split, -⟩ := List.lookup_eq_some_iff.1 found
    have all : ∀ entry ∈ longCapitals, entry.2.head?.any (fun n => !isSmall n) := by decide +kernel
    have filled := all (c.toNat, codes) (by rw [split]; simp)
    cases codes with
    | nil => contradiction
    | cons n codes => exact ⟨Char.ofNat n, _, rfl, toNat_ofNat_not_small (by simpa using filled)⟩
  · split
    · rename_i code found
      exact ⟨Char.ofNat code, [], rfl, toNat_ofNat_not_small (capitalOf?_not_small found)⟩
    · rename_i absent
      refine ⟨c, [], rfl, ?_⟩
      cases small : isSmall c.toNat with
      | false => rfl
      | true => exact absurd absent (capitalOf?_small small)

end ComponentBundle.Text

namespace ComponentBundle.Bundle
open ComponentBundle.Text ComponentBundle.Source ComponentBundle.Module ComponentBundle.Project

theorem capitalized_head {c : Char} {t : Text} :
    ∃ d more, capitalized (c :: t) = d :: more ∧ isSmall d.toNat = false := by
  obtain ⟨d, more, split, small⟩ := upper_head c
  exact ⟨d, more ++ t, by rw [capitalized, split]; rfl, small⟩

def asIdentifierChar (c : Char) : Char := if isIdentifierChar c then c else '_'

theorem ascii_of_identifierChar {c : Char} (known : isIdentifierChar c) : c.toNat < 0x80 := by
  simp only [isIdentifierChar, Char.isAlphanum, Char.isAlpha, Char.isUpper, Char.isLower,
    Char.isDigit, Bool.or_eq_true, Bool.and_eq_true, decide_eq_true_eq] at known
  rcases known with (((known | known) | known) | rfl) | rfl
  · exact Nat.lt_of_le_of_lt known.2 (by decide)
  · exact Nat.lt_of_le_of_lt known.2 (by decide)
  · exact Nat.lt_of_le_of_lt known.2 (by decide)
  · decide
  · decide

theorem asIdentifierChar_spec (c : Char) : isIdentifierChar (asIdentifierChar c) ∧
    (isSmall c.toNat = false → isSmall (asIdentifierChar c).toNat = false) := by
  unfold asIdentifierChar
  split
  · rename_i known
    exact ⟨known, id⟩
  · exact ⟨by decide, fun _ => by decide⟩

structure Capital (t : Text) : Prop where
  all : ∀ c ∈ t, isIdentifierChar c
  head : ∃ c more, t = c :: more ∧ isSmall c.toNat = false

def guarded (name : Text) : Text :=
  match name with
  | [] => ['_']
  | c :: _ => if c.isDigit then '_' :: name else name

theorem capital_guarded {name : Text} (all : ∀ c ∈ name, isIdentifierChar c)
    (head : ∀ c, name.head? = some c → isSmall c.toNat = false) : Capital (guarded name) := by
  cases name with
  | nil => exact ⟨List.forall_mem_singleton.2 (by decide), '_', [], rfl, by decide⟩
  | cons c name =>
    rw [guarded]
    split
    · exact ⟨List.forall_mem_cons.2 ⟨by decide, all⟩, '_', _, rfl, by decide⟩
    · exact ⟨all, c, name, rfl, head c rfl⟩

theorem identifierOf_eq (path : Text) : identifierOf path
    = guarded ((((splitWhere isPathMark (withoutExtension path)).filter fun part =>
        !part.isEmpty).flatMap capitalized).map asIdentifierChar) := rfl

theorem identifierOf_capital (path : Text) : Capital (identifierOf path) := by
  rw [identifierOf_eq]
  apply capital_guarded
  · intro c inside
    obtain ⟨d, -, rfl⟩ := List.mem_map.1 inside
    exact (asIdentifierChar_spec d).1
  · generalize nonempty : (splitWhere isPathMark (withoutExtension path)).filter
      (fun part => !part.isEmpty) = parts
    intro c first
    cases parts with
    | nil => contradiction
    | cons part parts =>
      have member : part ∈ (splitWhere isPathMark (withoutExtension path)).filter
          (fun part => !part.isEmpty) := nonempty ▸ List.mem_cons_self
      have filled : part ≠ [] := by simpa using (List.mem_filter.1 member).2
      obtain ⟨e, part, rfl⟩ := List.exists_cons_of_ne_nil filled
      obtain ⟨d, more, split, small⟩ := @capitalized_head e part
      rw [List.flatMap_cons, split, List.cons_append, List.map_cons] at first
      rw [← Option.some.inj first]
      exact (asIdentifierChar_spec d).2 small

structure Solid (t : Text) : Prop where
  head : ∃ c more, t = c :: more ∧ isIdentifierChar c ∧ isSmall c.toNat = false
  line : '\n' ∉ t

theorem Capital.line {t : Text} (h : Capital t) : '\n' ∉ t := by
  intro inside
  exact absurd (h.all _ inside) (by decide)

theorem Capital.solid {t : Text} (h : Capital t) : Solid t := by
  obtain ⟨c, more, split, small⟩ := h.head
  refine ⟨⟨c, more, split, h.all c ?_, small⟩, h.line⟩
  rw [split]
  exact List.mem_cons_self

theorem Capital.solid_member {t imported : Text} (h : Capital t) (line : '\n' ∉ imported) :
    Solid (t ++ '.' :: imported) := by
  obtain ⟨c, more, split, known, small⟩ := h.solid.head
  refine ⟨⟨c, more ++ '.' :: imported, by rw [split]; rfl, known, small⟩, ?_⟩
  simp only [List.mem_append, List.mem_cons, not_or]
  exact ⟨h.line, by decide, line⟩

theorem solid_memberTarget {target imported : Text} (h : Capital target)
    (line : '\n' ∉ imported) : Solid (memberTarget target imported) := by
  unfold memberTarget
  split
  · exact h.solid
  · exact h.solid_member line

theorem name?_line {t name rest : Text} (h : name? t = some (name, rest)) : '\n' ∉ name := by
  cases t with
  | nil => contradiction
  | cons c t =>
    rw [name?] at h
    split at h
    · rename_i start
      obtain ⟨rfl, -⟩ := Prod.mk.inj (Option.some.inj h)
      rw [List.mem_cons, not_or]
      constructor
      · rintro rfl
        exact absurd start (by decide)
      · intro inside
        exact absurd (List.mem_takeWhile_imp inside) (by decide)
    · contradiction

theorem memberBinding?_line {item : Text} {member : MemberBinding}
    (h : memberBinding? item = some member) : '\n' ∉ member.imported := by
  have named : ∃ rest, name? item = some (member.imported, rest) := by
    unfold memberBinding? at h
    split at h
    · contradiction
    · rename_i found
      rw [← Option.some.inj h]
      exact ⟨_, found⟩
    · rename_i found
      repeat' split at h
      all_goals try contradiction
      rw [← Option.some.inj h]
      exact ⟨_, found⟩
  obtain ⟨rest, found⟩ := named
  exact name?_line found

theorem addPart_members (bindings : Bindings) (part : Text) :
    (addPart bindings part).members = bindings.members := by
  unfold addPart
  split
  · dsimp only
    split <;> rfl
  · split <;> rfl

theorem ofClause_line (clause : Text) :
    ∀ member ∈ (Bindings.ofClause clause).members, '\n' ∉ member.imported := by
  have kept : ∀ (parts : List Text) (bindings : Bindings),
      (parts.foldl addPart bindings).members = bindings.members := by
    intro parts
    induction parts with
    | nil => exact fun _ => rfl
    | cons part more ih =>
      intro bindings
      rw [List.foldl_cons, ih, addPart_members]
  intro member inside
  rw [Bindings.ofClause, kept] at inside
  obtain ⟨item, -, found⟩ := List.mem_filterMap.1 inside
  exact memberBinding?_line found

variable {space : Text} {graph : ModuleGraph}

theorem mem_linkedModules {entry : Identified} (h : entry ∈ linkedModules space graph) :
    Capital entry.2 := by
  obtain ⟨node, -, rfl⟩ := List.mem_map.1 h
  exact identifierOf_capital node.relative

theorem solid_of_mem_targets {statement : ImportStatement} {source target : Text}
    (imported : statement ∈ imports space source) (capital : Capital target) {entry : Text × Text}
    (member : entry ∈ ImportStatement.targets statement target) : Solid entry.2 := by
  rcases List.mem_append.1 member with whole | part
  · obtain ⟨name, -, rfl⟩ := List.mem_map.1 whole
    exact capital.solid
  · obtain ⟨binding, inside, rfl⟩ := List.mem_map.1 part
    apply solid_memberTarget capital
    obtain ⟨lead, behind, form, -, -, -, rfl⟩ := mem_imports imported
    exact ofClause_line form.clause binding inside

theorem solid_of_mem_targetsOf {node : ReachedModule} {entry : Text × Text}
    (h : entry ∈ (ModulePart.of space node).targets (linkedModules space graph)
      (identifierOf node.relative)) : Solid entry.2 := by
  rcases List.mem_append.1 h with ofImport | ofExport
  · obtain ⟨statement, near, member⟩ := List.mem_flatMap.1 ofImport
    unfold ImportStatement.targetsIn at member
    split at member
    · rename_i target leads
      obtain ⟨other, inside, rfl⟩ := mem_of_target? leads
      exact solid_of_mem_targets (List.mem_filter.1 near).1 (mem_linkedModules inside) member
    · contradiction
  · obtain ⟨name, -, rfl⟩ := Option.map_eq_some_iff.1 (Option.mem_toList.1 ofExport)
    exact (identifierOf_capital node.relative).solid

end ComponentBundle.Bundle
