import ComponentBundle.Proofs.Declarations
import ComponentBundle.Proofs.SharedScope

/-!
The names that a module declares for the one scope of a bundle. The first name of a
declaration that starts its line is always among them, so two modules that declare it are
refused. A name behind a comma is not looked for.
-/
namespace ComponentBundle.Module
open ComponentBundle.Text ComponentBundle.Source

/-- A declaration at a line start whose word is code that no brace encloses. -/
structure TopLevel (t before : Text) (d : Declaration) : Prop where
  stands : StandsAt declaration? Declaration.text t before d
  code : inCode (lex t) (width before + width d.lead)
  shallow : braceDepth (codeChars t) (width before + width d.lead) = 0

def DeclaresAtTop (t name : Text) : Prop := ∃ before d, TopLevel t before d ∧ d.name = name

theorem mem_topLevelNames {t name : Text} : name ∈ topLevelNames t ↔
    ∃ place d, (place, d) ∈ phrases declaration? Declaration.text t ∧ d.name = name ∧
      inCode (lex t) (place + width d.lead) ∧
      braceDepth (codeChars t) (place + width d.lead) = 0 := by
  simp only [topLevelNames, List.mem_filterMap, Prod.exists, Option.ite_none_right_eq_some,
    Bool.and_eq_true, decide_eq_true_eq, Option.some.injEq]
  constructor
  · intro ⟨place, d, member, ⟨code, shallow⟩, same⟩
    exact ⟨place, d, member, same, code, shallow⟩
  · intro ⟨place, d, member, same, code, shallow⟩
    exact ⟨place, d, member, ⟨code, shallow⟩, same⟩

theorem DeclaresAtTop.reported {t name : Text} (h : DeclaresAtTop t name) :
    name ∈ topLevelNames t := by
  obtain ⟨before, d, top, same⟩ := h
  apply mem_topLevelNames.2
  exact ⟨_, d, top.stands.mem_phrases reads_declaration, same, top.code, top.shallow⟩

end ComponentBundle.Module

namespace ComponentBundle.Bundle
open ComponentBundle.Text ComponentBundle.Source ComponentBundle.Module ComponentBundle.Project

variable {space : Text} {graph : ModuleGraph}

def sourceLeft (space : Text) (node : ReachedModule) : Text :=
  withoutImports node.component.source (imports space node.component.source)

def unitOf (space : Text) (node : ReachedModule) : ExportedUnit :=
  splitUnit (sourceLeft space node)

/-- A module declares a name before or after its exported unit, for others than itself. -/
structure AddsName (space : Text) (node : ReachedModule) (name : Text) : Prop where
  declared : DeclaresAtTop (unitOf space node).preamble name ∨
    DeclaresAtTop (unitOf space node).epilogue name
  kept : (unitOf space node).exportedName ≠ some name

theorem AddsName.mem_ownNames {node : ReachedModule} {name : Text}
    (h : AddsName space node name) : name ∈ ownNames space node := by
  apply List.mem_filter.2
  constructor
  · apply List.mem_append.2
    exact h.declared.imp DeclaresAtTop.reported DeclaresAtTop.reported
  · exact decide_eq_true h.kept

/-- A name that two modules declare for the one scope is refused. -/
theorem name_of_two_refused {a b : ReachedModule} (insideA : a ∈ graph.modules)
    (insideB : b ∈ graph.modules) (apart : a.relative ≠ b.relative) {name : Text}
    (inA : AddsName space a name) (inB : AddsName space b name) :
    ∃ problem, link graph space = .error problem ∧ problem.code = Code.namingCollision := by
  have clash : Clash space graph :=
    .nameOfTwo a b insideA insideB apart name inA.mem_ownNames inB.mem_ownNames
  cases result : link graph space with
  | error problem => exact ⟨problem, rfl, link_eq_error result⟩
  | ok artifact => exact absurd clash (link_eq_ok_iff.1 result).1

/-! Two modules that declare one name, first in its declaration or behind a comma. -/

def badgeResolver : Resolver := ⟨⟨"parts"⟩, "app", "gjs"⟩

def badge (declared : Text) : ReachedModule :=
  ⟨⟨badgeResolver.locate "badge.gjs", declared ++ "\nexport default [label];"⟩,
    ["app/badge", "app/badge.gjs"]⟩

def badgeUser (declared : Text) : ReachedModule :=
  ⟨⟨badgeResolver.locate "main.gjs",
    "import Badge from 'app/badge';\n" ++ (declared ++ "\nexport default [Badge, label];")⟩,
    ["app/main", "app/main.gjs"]⟩

def badgeGraph (first second : Text) : ModuleGraph := ⟨[badge first, badgeUser second], 1, []⟩

theorem label_of_two_refused :
    AddsName "app" (badge "const label = 2;") "label" ∧
      AddsName "app" (badgeUser "const label = 3;") "label" ∧
      ∃ problem, link (badgeGraph "const label = 2;" "const label = 3;") "app" = .error problem ∧
        problem.code = Code.namingCollision := by
  have first : AddsName "app" (badge "const label = 2;") "label" := by
    refine ⟨Or.inl ⟨[], ⟨[], "const ", "label"⟩, ⟨?_, ?_, ?_⟩, rfl⟩, ?_⟩
    · exact .atStart (by decide +kernel)
    all_goals decide +kernel
  have second : AddsName "app" (badgeUser "const label = 3;") "label" := by
    refine ⟨Or.inl ⟨[], ⟨[], "const ", "label"⟩, ⟨?_, ?_, ?_⟩, rfl⟩, ?_⟩
    · exact .atStart (by decide +kernel)
    all_goals decide +kernel
  have insideFirst : badge "const label = 2;"
      ∈ (badgeGraph "const label = 2;" "const label = 3;").modules := List.mem_cons_self
  have insideSecond : badgeUser "const label = 3;"
      ∈ (badgeGraph "const label = 2;" "const label = 3;").modules := by simp [badgeGraph]
  exact ⟨first, second, name_of_two_refused insideFirst insideSecond (by decide) first second⟩

def DeclaresFurther (t name : Text) : Prop :=
  ∃ before d value rest, TopLevel t before d ∧ d.keyword.dropLast ∈ bindingWords ∧
    t = before ++ (d.text ++ (value ++ (',' :: ' ' :: (name ++ rest)))) ∧
    (∀ c ∈ value, c.isAlphanum ∨ c = ' ' ∨ c = '=') ∧ isName name ∧
    rest.head?.any isNameChar = false ∧
    inCode (lex t) (width before + width d.text + width value)

def badgeArtifact : Artifact where
  externals := []
  declarations := [
    ⟨"Badge", "badge.gjs", "const x = 1, label = 2;", "[label]", []⟩,
    ⟨"Main", "main.gjs", "const y = 1, label = 3;", "[Badge, label]", []⟩]
  exported := "Main"

theorem further_label_shared :
    (badge "const x = 1, label = 2;").relative ≠ (badgeUser "const y = 1, label = 3;").relative ∧
      DeclaresFurther (unitOf "app" (badge "const x = 1, label = 2;")).preamble "label" ∧
      DeclaresFurther (unitOf "app" (badgeUser "const y = 1, label = 3;")).preamble "label" ∧
      (unitOf "app" (badge "const x = 1, label = 2;")).exportedName ≠ some "label".toList ∧
      (unitOf "app" (badgeUser "const y = 1, label = 3;")).exportedName ≠ some "label".toList ∧
      link (badgeGraph "const x = 1, label = 2;" "const y = 1, label = 3;") "app"
        = .ok badgeArtifact := by
  have value : ∀ c ∈ (" = 1" : Text), c.isAlphanum ∨ c = ' ' ∨ c = '=' := by
    have plain : (" = 1" : Text).all fun c => c.isAlphanum || c = ' ' || c = '=' := by decide
    intro c inside
    simpa [or_assoc] using List.all_eq_true.1 plain c inside
  refine ⟨by decide, ?_, ?_, by decide +kernel, by decide +kernel, by decide +kernel⟩
  · refine ⟨[], ⟨[], "const ", "x"⟩, " = 1", " = 2;\n", ⟨?_, ?_, ?_⟩, ?_, ?_, value, ?_⟩
    · exact .atStart (by decide +kernel)
    all_goals decide +kernel
  · refine ⟨[], ⟨[], "const ", "y"⟩, " = 1", " = 3;\n", ⟨?_, ?_, ?_⟩, ?_, ?_, value, ?_⟩
    · exact .atStart (by decide +kernel)
    all_goals decide +kernel

end ComponentBundle.Bundle
