import Mathlib.Data.List.Nodup
import ComponentBundle.Bundle.Linking

/-!
When modules can share one scope. Names that imports bind, names that modules declare and
the identifiers of modules are compared in three passes, each by a rule of its own: the
names of imports by spelling, declared names by spelling and owner, and identifiers
by spelling and, among themselves, without the case of ASCII letters.
-/
namespace ComponentBundle.Bundle
open ComponentBundle.Text ComponentBundle.Module ComponentBundle.Project

theorem lookup_eq_none_iff_notMem {table : List (Text × Text)} {name : Text} :
    table.lookup name = none ↔ name ∉ table.map Prod.fst := by
  simp only [List.lookup_eq_none_iff, List.mem_map, bne_iff_ne]
  grind

theorem mem_of_lookup {table : List (Text × Text)} {name value : Text}
    (h : table.lookup name = some value) : name ∈ table.map Prod.fst := by
  by_contra absent
  rw [lookup_eq_none_iff_notMem.2 absent] at h
  contradiction

section
variable {reserved owners : List (Text × Text)} {path : Text} {paths more ids : List Text}
  {problem : Problem}

theorem distinctFrom_cons_eq_ok_iff :
    distinctFrom reserved owners (path :: more) = .ok ids ↔
      identifierOf path ∉ reserved.map Prod.fst ∧
        identifierKey (identifierOf path) ∉ owners.map Prod.fst ∧
        ∃ rest, distinctFrom reserved ((identifierKey (identifierOf path), path) :: owners) more
            = .ok rest ∧
          ids = identifierOf path :: rest := by
  rw [distinctFrom, ← lookup_eq_none_iff_notMem, ← lookup_eq_none_iff_notMem]
  cases reserved.lookup (identifierOf path) with
  | some origin => simp
  | none =>
    cases owners.lookup (identifierKey (identifierOf path)) with
    | some first => simp
    | none =>
      cases distinctFrom reserved ((identifierKey (identifierOf path), path) :: owners) more <;>
        simp [Except.map, eq_comm]

theorem distinctFrom_cons_eq_error_iff :
    distinctFrom reserved owners (path :: more) = .error problem ↔
      match (reserved.lookup (identifierOf path)).or
          (owners.lookup (identifierKey (identifierOf path))) with
      | some holder => problem = .namingCollision (identifierOf path) holder path
      | none => distinctFrom reserved ((identifierKey (identifierOf path), path) :: owners) more
          = .error problem := by
  rw [distinctFrom]
  cases reserved.lookup (identifierOf path) with
  | some origin => simp [eq_comm]
  | none =>
    cases owners.lookup (identifierKey (identifierOf path)) with
    | some first => simp [eq_comm]
    | none =>
      cases distinctFrom reserved ((identifierKey (identifierOf path), path) :: owners) more <;>
        simp [Except.map]

theorem distinctFrom_eq_ok_iff : distinctFrom reserved owners paths = .ok ids ↔
    ids = paths.map identifierOf ∧
      (∀ path ∈ paths, identifierOf path ∉ reserved.map Prod.fst) ∧
      (∀ path ∈ paths, identifierKey (identifierOf path) ∉ owners.map Prod.fst) ∧
      (paths.map fun path => identifierKey (identifierOf path)).Nodup := by
  induction paths generalizing owners ids with
  | nil => simp [distinctFrom, eq_comm]
  | cons path more ih =>
    rw [distinctFrom_cons_eq_ok_iff]
    constructor
    · rintro ⟨free, new, rest, given, rfl⟩
      obtain ⟨rfl, frees, news, distinct⟩ := ih.1 given
      refine ⟨rfl, List.forall_mem_cons.2 ⟨free, frees⟩, ?_, ?_⟩
      · exact List.forall_mem_cons.2
          ⟨new, fun other member old => news other member (List.mem_cons_of_mem _ old)⟩
      · refine List.nodup_cons.2 ⟨fun again => ?_, distinct⟩
        obtain ⟨other, member, same⟩ := List.mem_map.1 again
        exact news other member (same ▸ List.mem_cons_self)
    · rintro ⟨rfl, frees, news, distinct⟩
      obtain ⟨free, frees⟩ := List.forall_mem_cons.1 frees
      obtain ⟨new, news⟩ := List.forall_mem_cons.1 news
      obtain ⟨apart, distinct⟩ := List.nodup_cons.1 distinct
      refine ⟨free, new, _, ih.2 ⟨rfl, frees, fun other member old => ?_, distinct⟩, rfl⟩
      rcases List.mem_cons.1 old with same | older
      · exact apart (List.mem_map.2 ⟨other, member, same⟩)
      · exact news other member older

theorem distinctFrom_eq_error (h : distinctFrom reserved owners paths = .error problem) :
    problem.code = Code.namingCollision := by
  induction paths generalizing owners with
  | nil => simp [distinctFrom] at h
  | cons path more ih =>
    have refused := distinctFrom_cons_eq_error_iff.1 h
    split at refused
    · rw [refused]
      rfl
    · exact ih refused

end

theorem distinctIdentifiers_eq_ok_iff {reserved : List (Text × Text)} {paths ids : List Text} :
    distinctIdentifiers reserved paths = .ok ids ↔
      ids = paths.map identifierOf ∧
        (∀ path ∈ paths, identifierOf path ∉ reserved.map Prod.fst) ∧
        (paths.map fun path => identifierKey (identifierOf path)).Nodup := by
  rw [distinctIdentifiers, distinctFrom_eq_ok_iff]
  simp

theorem declareNames_eq_ok {reserved declared names table : List (Text × Text)}
    (h : declareNames reserved declared names = .ok table) :
    (∃ more, table = declared ++ more) ∧
      (∀ entry ∈ names, entry.1 ∉ reserved.map Prod.fst ∧
        table.lookup entry.1 = some entry.2) ∧
      ∀ name, name ∈ table.map Prod.fst ↔
        name ∈ declared.map Prod.fst ∨ name ∈ names.map Prod.fst := by
  induction names generalizing declared with
  | nil =>
    obtain rfl : declared = table := Except.ok.inj h
    simp
  | cons entry more ih =>
    obtain ⟨name, path⟩ := entry
    unfold declareNames at h
    split at h
    · contradiction
    · rename_i owner free owned
      split at h
      · rename_i same
        obtain ⟨⟨rest, grown⟩, known, keys⟩ := ih h
        refine ⟨⟨rest, grown⟩, List.forall_mem_cons.2 ⟨⟨?_, ?_⟩, known⟩, ?_⟩
        · exact lookup_eq_none_iff_notMem.1 free
        · rw [grown, List.lookup_append, owned, same]
          rfl
        · intro other
          have old := mem_of_lookup owned
          rw [keys, List.map_cons, List.mem_cons]
          grind
      · contradiction
    · rename_i free new
      obtain ⟨⟨rest, grown⟩, known, keys⟩ := ih h
      refine ⟨⟨_, grown.trans (List.append_assoc ..)⟩, List.forall_mem_cons.2 ⟨⟨?_, ?_⟩, known⟩, ?_⟩
      · exact lookup_eq_none_iff_notMem.1 free
      · rw [grown, List.append_assoc, List.lookup_append, new]
        simp
      · intro other
        rw [keys, List.map_append, List.map_cons, List.mem_append, List.mem_cons]
        grind

theorem declareNames_eq_error {reserved declared names : List (Text × Text)} {problem : Problem}
    (h : declareNames reserved declared names = .error problem) :
    problem.code = Code.namingCollision ∧
      ∃ entry ∈ names, entry.1 ∈ reserved.map Prod.fst ∨
        ∃ other ∈ declared ++ names, other.1 = entry.1 ∧ other.2 ≠ entry.2 := by
  induction names generalizing declared with
  | nil => simp [declareNames] at h
  | cons entry more ih =>
    obtain ⟨name, path⟩ := entry
    unfold declareNames at h
    split at h
    · rename_i origin taken
      rw [← Except.error.inj h]
      exact ⟨rfl, (name, path), List.mem_cons_self, Or.inl (mem_of_lookup taken)⟩
    · rename_i owner free owned
      split at h
      · obtain ⟨code, other, member, clash⟩ := ih h
        refine ⟨code, other, List.mem_cons_of_mem _ member, clash.imp_right ?_⟩
        rintro ⟨first, found, clash⟩
        exact ⟨first, by grind, clash⟩
      · rename_i apart
        rw [← Except.error.inj h]
        obtain ⟨before, behind, split, -⟩ := List.lookup_eq_some_iff.1 owned
        refine ⟨rfl, (name, path), List.mem_cons_self, Or.inr ⟨(name, owner), ?_, rfl, apart⟩⟩
        simp [split]
    · obtain ⟨code, other, member, clash⟩ := ih h
      refine ⟨code, other, List.mem_cons_of_mem _ member, clash.imp_right ?_⟩
      rintro ⟨first, found, clash⟩
      exact ⟨first, by grind, clash⟩

theorem Table.mem_foldl_addNew {table entries : Table} {name : Text} :
    name ∈ (entries.foldl Table.addNew table).map Prod.fst ↔
      name ∈ table.map Prod.fst ∨ name ∈ entries.map Prod.fst := by
  induction entries generalizing table with
  | nil => simp
  | cons entry more ih =>
    rw [List.foldl_cons, ih, Table.addNew]
    split
    · rename_i known
      obtain ⟨value, found⟩ := Option.isSome_iff_exists.1 known
      have old := mem_of_lookup found
      grind
    · grind

variable {space : Text} {graph : ModuleGraph}

def identified (space : Text) (node : ReachedModule) : Identified :=
  (ModulePart.of space node, identifierOf node.relative)

def linkedModules (space : Text) (graph : ModuleGraph) : List Identified :=
  graph.modules.map (identified space)

def hoistedNames (space : Text) (graph : ModuleGraph) : List Text :=
  graph.modules.flatMap fun node =>
    ((imports space node.component.source).filter fun s => !s.isLocal).flatMap (·.bindings.names)

/-- The names that a module declares for the whole scope, apart from its imports. -/
def ownNames (space : Text) (node : ReachedModule) : List Text :=
  (splitUnit (withoutImports node.component.source
    (imports space node.component.source))).scopeNames

theorem mem_importedNames {name : Text} :
    name ∈ (importedNames (graph.modules.map (ModulePart.of space))).map Prod.fst ↔
      name ∈ hoistedNames space graph := by
  rw [importedNames, Table.mem_foldl_addNew]
  simp [hoistedNames, List.flatMap_map, List.map_flatMap, ModulePart.externalImports, ModulePart.of]

theorem mem_scopeNames {entry : Text × Text} :
    entry ∈ scopeNames (graph.modules.map (ModulePart.of space)) ↔
      ∃ node ∈ graph.modules, entry.1 ∈ ownNames space node ∧ node.relative = entry.2 := by
  obtain ⟨name, path⟩ := entry
  simp [scopeNames, ownNames, ModulePart.of]

/-- What keeps modules from sharing one scope. -/
inductive Clash (space : Text) (graph : ModuleGraph) : Prop where
  | nameOfImport (node : ReachedModule) (inside : node ∈ graph.modules) (name : Text)
      (declared : name ∈ ownNames space node) (imported : name ∈ hoistedNames space graph)
  | nameOfTwo (a b : ReachedModule) (insideA : a ∈ graph.modules) (insideB : b ∈ graph.modules)
      (apart : a.relative ≠ b.relative) (name : Text) (inA : name ∈ ownNames space a)
      (inB : name ∈ ownNames space b)
  | identifierOfImport (node : ReachedModule) (inside : node ∈ graph.modules)
      (imported : identifierOf node.relative ∈ hoistedNames space graph)
  | identifierOfName (node owner : ReachedModule) (inside : node ∈ graph.modules)
      (ownerInside : owner ∈ graph.modules)
      (declared : identifierOf node.relative ∈ ownNames space owner)
  | identifierOfTwo (i j : Nat) (before : i < j) (a b : ReachedModule)
      (atI : graph.modules[i]? = some a) (atJ : graph.modules[j]? = some b)
      (same : (identifierOf a.relative).map Char.toLower
        = (identifierOf b.relative).map Char.toLower)

theorem identifierKeys_nodup (clear : ¬ Clash space graph) :
    (graph.relatives.map fun path => identifierKey (identifierOf path)).Nodup := by
  rw [List.nodup_iff_getElem?_ne_getElem?]
  intro i j before bound same
  rw [ModuleGraph.relatives, List.map_map, List.length_map] at bound
  have atJ := List.getElem?_eq_getElem bound
  have atI := List.getElem?_eq_getElem (Nat.lt_trans before bound)
  simp only [ModuleGraph.relatives, List.getElem?_map, atI, atJ, Option.map_some,
    Option.some.injEq] at same
  exact clear (.identifierOfTwo i j before _ _ atI atJ same)

theorem mem_reserved {declared : Table}
    (h : declareNames (importedNames (graph.modules.map (ModulePart.of space))) []
      (scopeNames (graph.modules.map (ModulePart.of space))) = .ok declared) {name : Text} :
    name ∈ (importedNames (graph.modules.map (ModulePart.of space))
        ++ declared.map fun ((name, path) : Text × Text) =>
          (name, declarationOrigin path)).map Prod.fst ↔
      name ∈ hoistedNames space graph ∨ ∃ owner ∈ graph.modules, name ∈ ownNames space owner := by
  obtain ⟨-, -, keys⟩ := declareNames_eq_ok h
  have names : name ∈ declared.map Prod.fst ↔
      ∃ owner ∈ graph.modules, name ∈ ownNames space owner := by
    rw [keys]
    constructor
    · rintro (old | member)
      · simp at old
      · obtain ⟨entry, inside, rfl⟩ := List.mem_map.1 member
        obtain ⟨owner, member, declared, -⟩ := mem_scopeNames.1 inside
        exact ⟨owner, member, declared⟩
    · rintro ⟨owner, inside, declared⟩
      exact Or.inr (List.mem_map.2
        ⟨(name, owner.relative), mem_scopeNames.2 ⟨owner, inside, declared, rfl⟩, rfl⟩)
  rw [List.map_append, List.map_map, List.mem_append, mem_importedNames]
  exact or_congr_right names

theorem relatives_of_parts :
    (graph.modules.map (ModulePart.of space)).map ModulePart.relative = graph.relatives := by
  simp [ModuleGraph.relatives, ModulePart.of, Function.comp_def]

theorem sharedIdentifiers_of_not_clash (clear : ¬ Clash space graph) :
    sharedIdentifiers (graph.modules.map (ModulePart.of space))
      = .ok (graph.relatives.map identifierOf) := by
  unfold sharedIdentifiers
  cases names : declareNames (importedNames (graph.modules.map (ModulePart.of space))) []
      (scopeNames (graph.modules.map (ModulePart.of space))) with
  | error problem =>
    obtain ⟨-, entry, member, clash⟩ := declareNames_eq_error names
    obtain ⟨node, inside, declared, place⟩ := mem_scopeNames.1 member
    rcases clash with imported | ⟨other, again, same, apart⟩
    · exact absurd (.nameOfImport node inside _ declared (mem_importedNames.1 imported)) clear
    · obtain ⟨owner, ownerInside, ownerDeclared, ownerPlace⟩ := mem_scopeNames.1 again
      refine absurd (.nameOfTwo owner node ownerInside inside ?_ _ ownerDeclared (same ▸ declared))
        clear
      rw [ownerPlace, place]
      exact apart
  | ok declared =>
    simp only [names, bind, Except.bind, relatives_of_parts]
    refine distinctIdentifiers_eq_ok_iff.2 ⟨rfl, ?_, identifierKeys_nodup clear⟩
    intro path member reserved
    obtain ⟨node, inside, rfl⟩ := List.mem_map.1 member
    rcases (mem_reserved names).1 reserved with imported | ⟨owner, ownerInside, taken⟩
    · exact clear (.identifierOfImport node inside imported)
    · exact clear (.identifierOfName node owner inside ownerInside taken)

theorem not_clash_of_sharedIdentifiers {ids : List Text}
    (h : sharedIdentifiers (graph.modules.map (ModulePart.of space)) = .ok ids) :
    ¬ Clash space graph := by
  unfold sharedIdentifiers at h
  cases names : declareNames (importedNames (graph.modules.map (ModulePart.of space))) []
      (scopeNames (graph.modules.map (ModulePart.of space))) with
  | error problem => simp [names, bind, Except.bind] at h
  | ok declared =>
    simp only [names, bind, Except.bind, relatives_of_parts] at h
    obtain ⟨-, free, distinct⟩ := distinctIdentifiers_eq_ok_iff.1 h
    obtain ⟨-, known, -⟩ := declareNames_eq_ok names
    have free : ∀ node ∈ graph.modules, identifierOf node.relative ∉ hoistedNames space graph ∧
        ∀ owner ∈ graph.modules, identifierOf node.relative ∉ ownNames space owner := by
      intro node inside
      have absent := free node.relative (List.mem_map_of_mem inside)
      rw [mem_reserved names] at absent
      grind
    intro clash
    cases clash with
    | nameOfImport node inside name declared imported =>
      have entry : (name, node.relative)
          ∈ scopeNames (graph.modules.map (ModulePart.of space)) :=
        mem_scopeNames.2 ⟨node, inside, declared, rfl⟩
      exact (known _ entry).1 (mem_importedNames.2 imported)
    | nameOfTwo a b insideA insideB apart name inA inB =>
      have ownerA := (known (name, a.relative) (mem_scopeNames.2 ⟨a, insideA, inA, rfl⟩)).2
      have ownerB := (known (name, b.relative) (mem_scopeNames.2 ⟨b, insideB, inB, rfl⟩)).2
      exact apart (Option.some.inj (ownerA.symm.trans ownerB))
    | identifierOfImport node inside imported => exact (free node inside).1 imported
    | identifierOfName node owner inside ownerInside declared =>
      exact (free node inside).2 owner ownerInside declared
    | identifierOfTwo i j before a b atI atJ same =>
      have bound : j < graph.modules.length := (List.getElem?_eq_some_iff.1 atJ).1
      apply List.nodup_iff_getElem?_ne_getElem?.1 distinct i j before
      · simpa [ModuleGraph.relatives] using bound
      · simp [ModuleGraph.relatives, atI, atJ, identifierKey, same]

theorem sharedIdentifiers_eq_error {parts : List ModulePart} {problem : Problem}
    (h : sharedIdentifiers parts = .error problem) : problem.code = Code.namingCollision := by
  unfold sharedIdentifiers at h
  cases names : declareNames (importedNames parts) [] (scopeNames parts) with
  | error fault =>
    simp only [names, bind, Except.bind] at h
    exact Except.error.inj h ▸ (declareNames_eq_error names).1
  | ok declared =>
    simp only [names, bind, Except.bind] at h
    exact distinctFrom_eq_error h

def linked (space : Text) (graph : ModuleGraph) : Artifact :=
  let modules := linkedModules space graph
  { externals := (externalImports (graph.modules.map (ModulePart.of space))).map Prod.snd
    declarations := modules.mapIdx (declare modules)
    exported := (graph.relatives.map identifierOf).getD graph.entry [] }

theorem link_eq_ok_iff {artifact : Artifact} :
    link graph space = .ok artifact ↔ ¬ Clash space graph ∧ artifact = linked space graph := by
  have zipped : (graph.modules.map (ModulePart.of space)).zip (graph.relatives.map identifierOf)
      = linkedModules space graph := by
    simp [ModuleGraph.relatives, List.zip_map', linkedModules, identified, Function.comp_def]
  constructor
  · intro h
    cases ids : sharedIdentifiers (graph.modules.map (ModulePart.of space)) with
    | error problem => simp [link, ids, bind, Except.bind] at h
    | ok found =>
      have clear := not_clash_of_sharedIdentifiers ids
      obtain rfl := Except.ok.inj (ids.symm.trans (sharedIdentifiers_of_not_clash clear))
      simp only [link, ids, bind, Except.bind, zipped] at h
      exact ⟨clear, (Except.ok.inj h).symm⟩
  · rintro ⟨clear, rfl⟩
    simp only [link, sharedIdentifiers_of_not_clash clear, bind, Except.bind, zipped]
    rfl

theorem link_eq_error {problem : Problem} (h : link graph space = .error problem) :
    problem.code = Code.namingCollision := by
  cases ids : sharedIdentifiers (graph.modules.map (ModulePart.of space)) with
  | error fault =>
    simp only [link, ids, bind, Except.bind] at h
    exact Except.error.inj h ▸ sharedIdentifiers_eq_error ids
  | ok found => simp [link, ids, bind, Except.bind, pure, Except.pure] at h

/-- Modules are linked unless they clash, with the identifiers derived from their paths. -/
theorem link_refuses_clashes (graph : ModuleGraph) (space : Text) :
    ((∃ problem, link graph space = .error problem) ↔ Clash space graph) ∧
      (∀ problem, link graph space = .error problem → problem.code = Code.namingCollision) ∧
      ∀ artifact, link graph space = .ok artifact →
        artifact.declarations.map (fun d => (d.identifier, d.relative))
            = graph.modules.map (fun node => (identifierOf node.relative, node.relative)) ∧
          ∀ node, graph.modules[graph.entry]? = some node →
            artifact.exported = identifierOf node.relative := by
  refine ⟨⟨?_, ?_⟩, fun problem h => link_eq_error h, ?_⟩
  · rintro ⟨problem, h⟩
    by_contra clear
    rw [link_eq_ok_iff.2 ⟨clear, rfl⟩] at h
    contradiction
  · intro clash
    cases result : link graph space with
    | error problem => exact ⟨problem, rfl⟩
    | ok artifact => exact absurd clash (link_eq_ok_iff.1 result).1
  · intro artifact h
    obtain ⟨-, rfl⟩ := link_eq_ok_iff.1 h
    constructor
    · apply List.ext_getElem?
      intro i
      simp only [linked, linkedModules, List.getElem?_map, List.getElem?_mapIdx]
      cases graph.modules[i]? <;> rfl
    · intro node atEntry
      simp [linked, ModuleGraph.relatives, atEntry]

end ComponentBundle.Bundle
