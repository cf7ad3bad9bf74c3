import Mathlib.Data.List.Basic
import ComponentBundle.Proofs.ImportReading
import ComponentBundle.Proofs.KeptEdits
import ComponentBundle.Proofs.SharedScope

/-!
What is hoisted for the external imports of a graph. Of the imports with one key the first is
hoisted, and it imports there what it imported in its module. Names play no part in that, so
two imports of one name are both hoisted when they are spelled with different keys.
-/
namespace ComponentBundle.Bundle
open ComponentBundle.Text ComponentBundle.Source ComponentBundle.Module ComponentBundle.Project

def firstsBy {α : Type} (key : α → Text) : List α → List α
  | [] => []
  | a :: more => a :: (firstsBy key more).filter fun b => key b ≠ key a

theorem mem_of_mem_firstsBy {α : Type} {key : α → Text} {l : List α} {a : α}
    (h : a ∈ firstsBy key l) : a ∈ l := by
  induction l with
  | nil => contradiction
  | cons b l ih =>
    rcases List.mem_cons.1 h with rfl | later
    · exact List.mem_cons_self
    · exact List.mem_cons_of_mem _ (ih (List.mem_filter.1 later).1)

theorem firstsBy_map {α β : Type} (f : α → β) (key : β → Text) (l : List α) :
    firstsBy key (l.map f) = (firstsBy (fun a => key (f a)) l).map f := by
  induction l with
  | nil => rfl
  | cons a l ih => simp only [List.map_cons, firstsBy, ih, List.filter_map, Function.comp_def]

theorem Table.foldl_addNew (table entries : Table) : entries.foldl Table.addNew table
    = table ++ (firstsBy Prod.fst entries).filter fun entry => entry.1 ∉ table.map Prod.fst := by
  induction entries generalizing table with
  | nil => simp [firstsBy]
  | cons entry more ih =>
    rw [List.foldl_cons, ih, Table.addNew]
    simp only [firstsBy, List.filter_cons, List.filter_filter]
    cases known : table.lookup entry.1 with
    | some value =>
      have old := mem_of_lookup known
      simp only [Option.isSome_some, if_true, old, not_true, decide_false, Bool.false_eq_true,
        if_false]
      congr 1
      refine List.filter_congr fun other _ => ?_
      grind
    | none =>
      have new := lookup_eq_none_iff_notMem.1 known
      simp only [Option.isSome_none, Bool.false_eq_true, if_false, new, not_false_iff, decide_true,
        if_true, List.append_assoc, List.singleton_append]
      congr 2
      refine List.filter_congr fun other _ => ?_
      simp
      grind

theorem terminated_statement (opening specifier : Text) {quote : Char} (closes : isQuote quote)
    (rest : Text) : ∃ mark, terminator mark = mark ∧
      terminated (opening ++ (specifier ++ quote :: semicolonMark rest))
        = opening ++ (specifier ++ quote :: mark) := by
  have other : quote ≠ ';' := by
    rintro rfl
    contradiction
  have ends (front : Text) : endsWith (front ++ [';']) ';' := by
    simp [endsWith]
  rw [semicolonMark]
  split
  · refine ⟨rest.takeWhile isIndent ++ [';'],
      terminator_semicolon fun c inside => List.mem_takeWhile_imp inside, ?_⟩
    have split : opening ++ (specifier ++ quote :: (rest.takeWhile isIndent ++ [';']))
        = (opening ++ (specifier ++ quote :: rest.takeWhile isIndent)) ++ [';'] := by simp
    rw [split, terminated, if_pos (ends _)]
  · refine ⟨[';'], rfl, ?_⟩
    rw [terminated, if_neg]
    · simp
    · simp [endsWith, ← List.append_assoc, other]

variable {space : Text} {graph : ModuleGraph}

theorem placed_text (form : ImportForm) (lead : Text) :
    (form.placed space (width lead)).text (lead ++ form.text)
      = trim (form.opening ++ (form.specifier ++ form.closing)) :=
  congrArg trim (form.slice_placed space lead)

theorem imports_terminated {source : Text} {s : ImportStatement}
    (member : s ∈ imports space source) :
    ∃ again, imports space (terminated (s.text source)) = [again] ∧
      again.specifier.specifier = s.specifier.specifier ∧ again.bindings = s.bindings := by
  obtain ⟨lead, behind, form, rfl, ends, formed, rfl⟩ := mem_imports member
  have text := importForm?_text formed
  obtain ⟨opening, clause, q, read, rfl⟩ := reading?_of_importForm? formed
  obtain ⟨quote, more, starts, -, -⟩ := reading?_cut read
  obtain ⟨mark, closed, same⟩ :=
    terminated_statement opening q.specifier quote q.rest
  refine ⟨(statementForm opening clause { q with rest := mark }).placed space 0, ?_, rfl, rfl⟩
  rw [← text, placed_text]
  change imports space (terminated (trim (opening ++
    (q.specifier ++ (statementForm opening clause q).closing)))) = _
  rw [statementForm_trim starts quote, same]
  exact imports_statement ends read closed

/-- The names that a statement binds with what they are in the other module. -/
def sources (bindings : Bindings) : List MemberBinding :=
  (bindings.defaultName.map (⟨defaultWord, ·⟩)).toList
    ++ (bindings.namespaceName.map (⟨['*'], ·⟩)).toList ++ bindings.members

theorem names_eq_sources (bindings : Bindings) :
    bindings.names = (sources bindings).map (·.name) := by
  rcases bindings with ⟨_ | _, _ | _, members⟩ <;> simp [Bindings.names, sources]

/-- An external import with the source that it stands in. -/
structure ExternalImport where
  source : Text
  statement : ImportStatement

namespace ExternalImport

def hoisted (e : ExternalImport) : Text := terminated (e.statement.text e.source)

def key (e : ExternalImport) : Text := importKey (e.statement.text e.source)

def specifier (e : ExternalImport) : Text := e.statement.specifier.specifier

def sources (e : ExternalImport) : List MemberBinding := Bundle.sources e.statement.bindings

def binds (e : ExternalImport) (name : Text) : Bool := e.statement.bindings.names.contains name

end ExternalImport

def externalsOf (space : Text) (graph : ModuleGraph) : List ExternalImport :=
  graph.modules.flatMap fun node =>
    ((imports space node.component.source).filter fun s => !s.isLocal).map
      (⟨node.component.source, ·⟩)

def firstImports (space : Text) (graph : ModuleGraph) : List ExternalImport :=
  firstsBy ExternalImport.key (externalsOf space graph)

theorem externals_eq {artifact : Artifact} (made : link graph space = .ok artifact) :
    artifact.externals = (firstImports space graph).map ExternalImport.hoisted := by
  obtain ⟨-, rfl⟩ := link_eq_ok_iff.1 made
  have entries : ((graph.modules.map (ModulePart.of space)).flatMap fun part =>
      part.externalImports.map fun s =>
        (importKey (s.text part.source), terminated (s.text part.source)))
      = (externalsOf space graph).map fun e => (e.key, e.hoisted) := by
    simp only [externalsOf, List.flatMap_map, List.map_flatMap, List.map_map]
    rfl
  rw [linked, externalImports, entries, Table.foldl_addNew, firstsBy_map]
  simp only [List.map_nil, List.not_mem_nil, not_false_iff, decide_true, List.filter_true,
    List.nil_append, List.map_map]
  rfl

theorem imports_hoisted {e : ExternalImport} (member : e ∈ externalsOf space graph) :
    ∃ again, imports space e.hoisted = [again] ∧
      again.specifier.specifier = e.specifier ∧ again.bindings = e.statement.bindings := by
  obtain ⟨node, -, inside⟩ := List.mem_flatMap.1 member
  obtain ⟨s, found, rfl⟩ := List.mem_map.1 inside
  exact imports_terminated (List.mem_filter.1 found).1

def bindsName (space name t : Text) : Bool :=
  (imports space t).any fun s => s.bindings.names.contains name

theorem bindsName_hoisted {e : ExternalImport} (member : e ∈ externalsOf space graph)
    (name : Text) : bindsName space name e.hoisted = e.binds name := by
  obtain ⟨again, alone, -, same⟩ := imports_hoisted member
  simp [bindsName, alone, same, ExternalImport.binds]

/-- Exactly one of the statements binds the name, and as the given name of the specifier. -/
def BoundOnce (space : Text) (statements : List Text) (specifier : Text)
    (binding : MemberBinding) : Prop :=
  ∃ t, statements.filter (bindsName space binding.name) = [t] ∧
    ∃ s, imports space t = [s] ∧ s.specifier.specifier = specifier ∧ binding ∈ sources s.bindings

theorem boundOnce_iff {specifier : Text} {binding : MemberBinding} :
    BoundOnce space ((firstImports space graph).map ExternalImport.hoisted) specifier binding ↔
      ∃ first, (firstImports space graph).filter (·.binds binding.name) = [first] ∧
        first.specifier = specifier ∧ binding ∈ first.sources := by
  have shifted : ((firstImports space graph).map ExternalImport.hoisted).filter
      (bindsName space binding.name)
        = ((firstImports space graph).filter (·.binds binding.name)).map ExternalImport.hoisted := by
    rw [List.filter_map]
    congr 1
    exact List.filter_congr fun e inside => bindsName_hoisted (mem_of_mem_firstsBy inside) _
  rw [BoundOnce, shifted]
  constructor
  · rintro ⟨t, one, s, alone, specifier, bound⟩
    obtain ⟨first, same, rfl⟩ := List.map_eq_singleton_iff.1 one
    have inside : first ∈ firstImports space graph :=
      (List.mem_filter.1 (same ▸ List.mem_singleton_self first)).1
    obtain ⟨again, read, from_, bindings⟩ := imports_hoisted (mem_of_mem_firstsBy inside)
    obtain rfl : again = s := by simpa [read] using alone
    rw [bindings] at bound
    exact ⟨first, same, from_ ▸ specifier, bound⟩
  · rintro ⟨first, one, specifier, bound⟩
    have inside : first ∈ firstImports space graph :=
      (List.mem_filter.1 (one ▸ List.mem_singleton_self first)).1
    obtain ⟨again, read, from_, bindings⟩ := imports_hoisted (mem_of_mem_firstsBy inside)
    refine ⟨first.hoisted, by rw [one]; rfl, again, read, from_.trans specifier, ?_⟩
    rwa [bindings]

def ExternalImport.Apart (a b : ExternalImport) : Prop :=
  ∀ name ∈ a.statement.bindings.names, b.binds name = false

instance (a b : ExternalImport) : Decidable (a.Apart b) :=
  inferInstanceAs (Decidable (∀ name ∈ a.statement.bindings.names, b.binds name = false))

theorem pairwise_apart {l : List ExternalImport}
    (once : ∀ e ∈ l, ∀ name, e.binds name → ∃ first, l.filter (·.binds name) = [first]) :
    l.Pairwise ExternalImport.Apart := by
  rw [List.pairwise_iff_forall_sublist]
  intro a b two name member
  have bindsA : a.binds name := List.contains_iff_mem.2 member
  cases bindsB : b.binds name with
  | false => rfl
  | true =>
    obtain ⟨first, one⟩ := once a (two.subset List.mem_cons_self) name bindsA
    have both := (two.filter (·.binds name)).length_le
    simp [one, bindsA, bindsB] at both

theorem filter_eq_singleton {l : List ExternalImport} (apart : l.Pairwise ExternalImport.Apart)
    {e : ExternalImport} (member : e ∈ l) {name : Text} (binds : e.binds name) :
    l.filter (·.binds name) = [e] := by
  have inside : e ∈ l.filter (·.binds name) := List.mem_filter.2 ⟨member, binds⟩
  have apart := apart.filter (·.binds name)
  have all : ∀ f ∈ l.filter (·.binds name), f.binds name := fun f found =>
    (List.mem_filter.1 found).2
  cases filtered : l.filter (·.binds name) with
  | nil =>
    rw [filtered] at inside
    contradiction
  | cons f more =>
    rw [filtered] at inside apart all
    cases more with
    | nil => rw [List.mem_singleton.1 inside]
    | cons g more =>
      have different : f.Apart g := List.rel_of_pairwise_cons apart List.mem_cons_self
      have both := all g (List.mem_cons_of_mem _ List.mem_cons_self)
      rw [different name (List.contains_iff_mem.1 (all f List.mem_cons_self))] at both
      contradiction

theorem binds_of_mem_sources {e : ExternalImport} {binding : MemberBinding}
    (h : binding ∈ e.sources) : e.binds binding.name := by
  rw [ExternalImport.binds, names_eq_sources, List.contains_iff_mem]
  exact List.mem_map_of_mem h

theorem exists_source_of_binds {e : ExternalImport} {name : Text} (h : e.binds name) :
    ∃ binding ∈ e.sources, binding.name = name := by
  rw [ExternalImport.binds, names_eq_sources, List.contains_iff_mem] at h
  exact List.mem_map.1 h

/-- Every name of an external import is bound once among the hoisted statements, as it was in
its module, unless two of the imports that are first for their keys share a name or an import
differs from the one that is hoisted for it. -/
theorem bound_once_iff {artifact : Artifact} (made : link graph space = .ok artifact) :
    (∀ e ∈ externalsOf space graph, ∀ binding ∈ e.sources,
        BoundOnce space artifact.externals e.specifier binding) ↔
      (firstImports space graph).Pairwise ExternalImport.Apart ∧
        ∀ e ∈ externalsOf space graph, ∀ binding ∈ e.sources,
          ∃ first ∈ firstImports space graph,
            first.specifier = e.specifier ∧ binding ∈ first.sources := by
  rw [externals_eq made]
  simp only [boundOnce_iff]
  constructor
  · intro once
    constructor
    · refine pairwise_apart fun e inside name binds => ?_
      obtain ⟨binding, source, rfl⟩ := exists_source_of_binds binds
      obtain ⟨first, one, -⟩ := once e (mem_of_mem_firstsBy inside) binding source
      exact ⟨first, one⟩
    · intro e member binding source
      obtain ⟨first, one, same⟩ := once e member binding source
      have inside := (List.mem_filter.1 (one ▸ List.mem_singleton_self first)).1
      exact ⟨first, inside, same⟩
  · rintro ⟨apart, kept⟩ e member binding source
    obtain ⟨first, inside, specifier, bound⟩ := kept e member binding source
    exact ⟨first, filter_eq_singleton apart inside (binds_of_mem_sources bound), specifier, bound⟩

/-! Two modules that import one name, from one package or from two. -/

def listenerResolver : Resolver := ⟨⟨"parts"⟩, "app", "gjs"⟩

def listener (path : Text) (specifiers : List Text) (source : Text) : ReachedModule :=
  ⟨⟨listenerResolver.locate path, source⟩, specifiers⟩

def listenerMain : ReachedModule :=
  listener "main.gjs" ["app/main", "app/main.gjs"]
    "import Button from 'app/button';\nimport { on } from '@ember/modifier';
export default [Button, on];"

def listenerPart : ModulePart where
  relative := "main.gjs"
  specifiers := ["app/main", "app/main.gjs"]
  source := listenerMain.component.source
  statements := imports "app" listenerMain.component.source
  unit := splitUnit "export default [Button, on];"

theorem listenerPart_of : ModulePart.of "app" listenerMain = listenerPart := by
  have left : withoutImports listenerMain.component.source
      (imports "app" listenerMain.component.source) = "export default [Button, on];" := by
    rw [withoutImports, applyEdits, kept_of_sorted (by decide +kernel)]
    decide +kernel
  simp only [ModulePart.of, left]
  rfl

def agreeingGraph : ModuleGraph where
  modules := [
    listener "button.gjs" ["app/button", "app/button.gjs"]
      "import {  on } from \x22@ember/modifier\x22\nexport default [on];",
    listenerMain]
  entry := 1
  warnings := []

def agreeingArtifact : Artifact where
  externals := ["import {  on } from \x22@ember/modifier\x22;"]
  declarations := [
    ⟨"Button", "button.gjs", [], "[on]", []⟩,
    ⟨"Main", "main.gjs", [], "[Button, on]", []⟩]
  exported := "Main"

theorem agreeingGraph_linked : link agreeingGraph "app" = .ok agreeingArtifact := by
  simp only [link, agreeingGraph, List.map_cons, listenerPart_of]
  decide +kernel

theorem agreeing_names_bound_once :
    link agreeingGraph "app" = .ok agreeingArtifact ∧
      ∀ e ∈ externalsOf "app" agreeingGraph, ∀ binding ∈ e.sources,
        BoundOnce "app" agreeingArtifact.externals e.specifier binding :=
  ⟨agreeingGraph_linked, (bound_once_iff agreeingGraph_linked).2 (by decide +kernel)⟩

def rivalGraph : ModuleGraph where
  modules := [
    listener "button.gjs" ["app/button", "app/button.gjs"]
      "import { on } from 'events';\nexport default [on];",
    listenerMain]
  entry := 1
  warnings := []

def rivalArtifact : Artifact where
  externals := ["import { on } from 'events';", "import { on } from '@ember/modifier';"]
  declarations := [
    ⟨"Button", "button.gjs", [], "[on]", []⟩,
    ⟨"Main", "main.gjs", [], "[Button, on]", []⟩]
  exported := "Main"

theorem rival_names_hoisted :
    link rivalGraph "app" = .ok rivalArtifact ∧
      ∃ e ∈ externalsOf "app" rivalGraph, ∃ binding ∈ e.sources,
        rivalArtifact.externals.filter (bindsName "app" binding.name) = rivalArtifact.externals ∧
        ¬ BoundOnce "app" rivalArtifact.externals e.specifier binding := by
  have linked : link rivalGraph "app" = .ok rivalArtifact := by
    simp only [link, rivalGraph, List.map_cons, listenerPart_of]
    decide +kernel
  have both : rivalArtifact.externals.filter (bindsName "app" "on") = rivalArtifact.externals := by
    decide +kernel
  have imported : (externalsOf "app" rivalGraph).any fun e => e.sources.contains ⟨"on", "on"⟩ := by
    decide +kernel
  obtain ⟨e, member, source⟩ := List.any_eq_true.1 imported
  refine ⟨linked, e, member, ⟨"on", "on"⟩, List.contains_iff_mem.1 source, both, ?_⟩
  rintro ⟨t, one, -⟩
  rw [both] at one
  simp [rivalArtifact] at one

end ComponentBundle.Bundle
