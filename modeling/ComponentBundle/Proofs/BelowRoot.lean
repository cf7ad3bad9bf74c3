import ComponentBundle.Proofs.AdvertisedNames
import ComponentBundle.Proofs.NamedPaths

/-!
What specifiers name below the module root. Whatever of namespace, dots, slashes and ending a
specifier is put together from, it is resolved to a file below the root or to none: the path that
it says is made of names, and so is the path of the file that is found for it.
-/
namespace ComponentBundle.Project
open ComponentBundle.Text ComponentBundle.Files ComponentBundle.Bundle

variable {tree : FileTree} {resolver : Resolver} {location : Location}
  {specifier rest path body t : Text}

/-- A specifier and what follows its qualification, which is the namespace before a slash, or
    else a dot and a slash. The slash behind the namespace is no part of it. -/
inductive Resolver.Qualifies (resolver : Resolver) : Text → Text → Prop where
  | spaced (rest : Text) : Qualifies resolver (resolver.space ++ slash :: rest) (slash :: rest)
  | dotted (rest : Text) (other : ¬ resolver.space ++ [slash] <+: '.' :: slash :: rest) :
      Qualifies resolver ('.' :: slash :: rest) rest
  | bare (specifier : Text) (other : ¬ resolver.space ++ [slash] <+: specifier)
      (undotted : ¬ ['.', slash] <+: specifier) : Qualifies resolver specifier specifier

/-- The path that a specifier says: its qualification, its ending and slashes at its ends are
    left out, and what is left is made of names. -/
structure Resolver.Means (resolver : Resolver) (specifier path : Text) : Prop where
  filled : path ≠ []
  named : ∃ names : List Name, (FilePath.mk path).parts = names.map .name
  spelled : ∃ rest left body right, resolver.Qualifies specifier rest ∧
    rest = left ++ (body ++ right) ∧ (∀ c ∈ left ++ right, c = slash) ∧ Bare body ∧
    (body = path ++ resolver.ending ∨ body = path ∧ ¬ resolver.ending <:+ body)

/-- The first of the two files that there may be for a path. -/
inductive FirstFound (tree : FileTree) (resolver : Resolver) (path : Text) : Location → Prop where
  | file (there : tree.isFile (resolver.locate (path ++ resolver.ending)).path = true) :
      FirstFound tree resolver path (resolver.locate (path ++ resolver.ending))
  | index (missing : tree.isFile (resolver.locate (path ++ resolver.ending)).path = false)
      (there : tree.isFile
        (resolver.locate (path ++ (Resolver.indexName ++ resolver.ending))).path = true) :
      FirstFound tree resolver path
        (resolver.locate (path ++ (Resolver.indexName ++ resolver.ending)))

/-- A file below the module root: its path leads from the root by names only. -/
structure BelowRoot (tree : FileTree) (resolver : Resolver) (location : Location) : Prop where
  placed : location.path = resolver.root.joined ⟨location.relative⟩
  relative : (FilePath.mk location.relative).isAbsolute = false
  noStepUp : .up ∉ (FilePath.mk location.relative).parts
  ended : ∃ stem : Text, stem ≠ [] ∧
    (∃ names : List Name, (FilePath.mk stem).parts = names.map .name) ∧
    location.relative = stem ++ resolver.ending
  rooted : resolver.root.spelling ≠ [] →
    tree.locate resolver.root = .ok (tree.destinationOf resolver.root)
  file : ∃ names content, names ≠ [] ∧
    (FilePath.mk location.relative).parts = names.map .name ∧
    tree.locate location.path = .ok (tree.destinationOf resolver.root ++ names) ∧
    tree.node? (tree.destinationOf resolver.root ++ names) = some (.file content)

theorem all_isName_iff {parts : List FilePath.Part} :
    parts.all Resolver.isName = true ↔ ∃ names : List Name, parts = names.map .name := by
  induction parts with
  | nil => exact ⟨fun _ => ⟨[], rfl⟩, fun _ => rfl⟩
  | cons part more ih =>
    rw [List.all_cons, Bool.and_eq_true, ih]
    constructor
    · rintro ⟨first, names, rfl⟩
      cases part with
      | name name => exact ⟨name :: names, rfl⟩
      | root => contradiction
      | here => contradiction
      | up => contradiction
    · rintro ⟨names, split⟩
      cases names with
      | nil => contradiction
      | cons name names =>
        obtain ⟨rfl, rfl⟩ := List.cons.inj split
        exact ⟨rfl, names, rfl⟩

theorem Resolver.Qualifies.eq (h : resolver.Qualifies specifier rest) :
    resolver.unqualified specifier = rest := by
  have passed {t : Text} (other : ¬ resolver.space ++ [slash] <+: t) :
      resolver.unqualified t = (after? ['.', slash] t).getD t := by
    unfold Resolver.unqualified
    split
    · rename_i behind found
      refine if_neg fun head => other ?_
      obtain ⟨more, rfl⟩ := List.head?_eq_some_iff.1 head
      exact ⟨more, by rw [after?_eq_some_iff.1 found]; simp⟩
    · rfl
  cases h with
  | spaced rest =>
    have found : after? resolver.space (resolver.space ++ slash :: rest) = some (slash :: rest) :=
      after?_eq_some_iff.2 rfl
    rw [Resolver.unqualified, found]
    rfl
  | dotted rest other =>
    have found : after? ['.', slash] ('.' :: slash :: rest) = some rest :=
      after?_eq_some_iff.2 rfl
    rw [passed other, found]
    rfl
  | bare specifier other undotted =>
    rw [passed other]
    cases found : after? ['.', slash] specifier with
    | none => rfl
    | some rest => exact absurd ⟨rest, (after?_eq_some_iff.1 found).symm⟩ undotted

theorem Resolver.qualifies_unqualified (resolver : Resolver) (specifier : Text) :
    resolver.Qualifies specifier (resolver.unqualified specifier) := by
  have known {rest : Text} (h : resolver.Qualifies specifier rest) :
      resolver.Qualifies specifier (resolver.unqualified specifier) := h.eq ▸ h
  by_cases spaced : resolver.space ++ [slash] <+: specifier
  · obtain ⟨rest, rfl⟩ := spaced
    rw [List.append_assoc] at known ⊢
    exact known (.spaced rest)
  · by_cases dotted : ['.', slash] <+: specifier
    · obtain ⟨rest, rfl⟩ := dotted
      exact known (.dotted rest spaced)
    · exact known (.bare specifier spaced dotted)

theorem withoutSlashes_start (t : Text) :
    ∃ right, t.dropWhile (· = slash) = withoutSlashes t ++ right ∧ ∀ c ∈ right, c = slash := by
  refine ⟨((t.dropWhile (· = slash)).reverse.takeWhile (· = slash)).reverse, ?_, fun c inside => ?_⟩
  · rw [withoutSlashes, withoutSlashesBehind, ← List.reverse_append,
      List.takeWhile_append_dropWhile, List.reverse_reverse]
  · simpa using List.mem_takeWhile_imp (List.mem_reverse.1 inside)

theorem withoutSlashes_split (t : Text) :
    ∃ left right, t = left ++ (withoutSlashes t ++ right) ∧ ∀ c ∈ left ++ right, c = slash := by
  obtain ⟨right, kept, rights⟩ := withoutSlashes_start t
  refine ⟨t.takeWhile (· = slash), right, ?_, List.forall_mem_append.2 ⟨fun c inside => ?_, rights⟩⟩
  · rw [← kept, List.takeWhile_append_dropWhile]
  · simpa using List.mem_takeWhile_imp inside

theorem withoutSlashes_bare (filled : withoutSlashes t ≠ []) : Bare (withoutSlashes t) := by
  refine ⟨filled, fun start => ?_, fun stop => ?_⟩
  · obtain ⟨right, kept, -⟩ := withoutSlashes_start t
    have first := List.head?_dropWhile_not (fun c => decide (c = slash)) t
    rw [kept, List.head?_append_of_ne_nil _ filled, start] at first
    simp at first
  · rw [withoutSlashes, withoutSlashesBehind, List.getLast?_reverse] at stop
    have last := List.head?_dropWhile_not (fun c => decide (c = slash))
      (t.dropWhile (· = slash)).reverse
    rw [stop] at last
    simp at last

theorem withoutSlashes_eq_iff (bare : Bare body) :
    withoutSlashes t = body ↔
      ∃ left right, t = left ++ (body ++ right) ∧ ∀ c ∈ left ++ right, c = slash := by
  constructor
  · rintro rfl
    exact withoutSlashes_split t
  · rintro ⟨left, right, rfl, slashes⟩
    obtain ⟨lefts, rights⟩ := List.forall_mem_append.1 slashes
    obtain ⟨first, more, rfl⟩ := List.exists_cons_of_ne_nil bare.filled
    have start : first ≠ slash := by simpa using bare.start
    rw [withoutSlashes, List.dropWhile_append_of_pos (by simpa using lefts), List.cons_append,
      List.dropWhile_cons_of_neg (by simpa using start), withoutSlashesBehind, ← List.cons_append,
      List.reverse_append, List.dropWhile_append_of_pos (by simpa using rights)]
    have own := bare.withoutSlashes
    rwa [withoutSlashes, List.dropWhile_cons_of_neg (by simpa using start)] at own

theorem withoutEnding_eq_iff :
    resolver.withoutEnding body = path ↔
      body = path ++ resolver.ending ∨ body = path ∧ ¬ resolver.ending <:+ body := by
  unfold Resolver.withoutEnding
  cases cut : before? resolver.ending body with
  | some stem =>
    obtain rfl := before?_eq_some_iff.1 cut
    simp [eq_comm]
  | none =>
    have whole : ¬ resolver.ending <:+ body := by
      rintro ⟨stem, split⟩
      rw [before?_eq_some_iff.2 split.symm] at cut
      contradiction
    constructor
    · rintro rfl
      exact .inr ⟨rfl, whole⟩
    · rintro (rfl | ⟨rfl, -⟩)
      · exact absurd (List.suffix_append _ _) whole
      · rfl

theorem pathBelowRoot?_eq_some_iff :
    resolver.pathBelowRoot? specifier = some path ↔ resolver.Means specifier path := by
  have made : resolver.pathBelowRoot? specifier = some path ↔ path ≠ [] ∧
      (∃ names : List Name, (FilePath.mk path).parts = names.map .name) ∧
      resolver.withoutEnding (withoutSlashes (resolver.unqualified specifier)) = path := by
    rw [← all_isName_iff]
    unfold Resolver.pathBelowRoot?
    dsimp only
    split
    · rename_i refused
      rw [Bool.or_eq_true, List.isEmpty_iff, Bool.not_eq_true'] at refused
      simp only [reduceCtorEq, false_iff]
      rintro ⟨filled, named, rfl⟩
      rcases refused with empty | strange
      · exact filled empty
      · rw [strange] at named
        contradiction
    · rename_i allowed
      simp only [Bool.or_eq_true, Bool.not_eq_true', not_or, Bool.not_eq_false,
        List.isEmpty_iff] at allowed
      rw [Option.some.injEq]
      constructor
      · rintro rfl
        exact ⟨allowed.1, allowed.2, rfl⟩
      · exact fun told => told.2.2
  rw [made]
  constructor
  · rintro ⟨filled, named, said⟩
    have body : withoutSlashes (resolver.unqualified specifier) ≠ [] := by
      intro empty
      rw [empty] at said
      rcases withoutEnding_eq_iff.1 said with ended | ⟨same, -⟩
      · exact filled (List.append_eq_nil_iff.1 ended.symm).1
      · exact filled same.symm
    obtain ⟨left, right, split, slashes⟩ := withoutSlashes_split (resolver.unqualified specifier)
    exact ⟨filled, named, _, left, _, right, resolver.qualifies_unqualified specifier, split,
      slashes, withoutSlashes_bare body, withoutEnding_eq_iff.1 said⟩
  · rintro ⟨filled, named, rest, left, body, right, qualifies, split, slashes, bare, said⟩
    refine ⟨filled, named, ?_⟩
    rw [qualifies.eq, (withoutSlashes_eq_iff bare).2 ⟨left, right, split, slashes⟩]
    exact withoutEnding_eq_iff.2 said

theorem resolve_eq_some_iff :
    resolver.resolve tree specifier = some location ↔
      ∃ path, resolver.Means specifier path ∧ FirstFound tree resolver path location := by
  simp only [Resolver.resolve, Option.bind_eq_some_iff, pathBelowRoot?_eq_some_iff]
  refine exists_congr fun path => and_congr_right fun _ => ?_
  rw [Resolver.candidates, List.map_cons, List.map_singleton, List.find?_cons,
    List.find?_singleton]
  constructor
  · intro found
    split at found
    · rename_i there
      exact Option.some.inj found ▸ .file there
    · rename_i missing
      split at found
      · rename_i there
        exact Option.some.inj found ▸ .index missing there
      · contradiction
  · rintro (there | ⟨missing, there⟩)
    · rw [there]
    · rw [missing, there]
      rfl

theorem index_of_names {names : List Name} (named : (FilePath.mk path).parts = names.map .name)
    (filled : path ≠ []) : ∃ more : List Name,
      (FilePath.mk (Text.bytes (path ++ Resolver.indexName))).parts = more.map .name := by
  obtain ⟨relative, start⟩ := FilePath.leading_eq_nil_iff.1 (FilePath.leading_of_names named)
  have spelled : Text.bytes (path ++ Resolver.indexName)
      = Text.bytes path ++ slashByte :: Text.bytes "index" :=
    bytes_append path Resolver.indexName
  have pieces : (FilePath.mk (Text.bytes (path ++ Resolver.indexName))).pieces
      = (FilePath.mk path).pieces ++ [Text.bytes "index"] := by
    rw [FilePath.pieces, spelled]
    exact splitOn_append_cons slashByte (Text.bytes path) (Text.bytes "index")
  have lead : (FilePath.mk (Text.bytes (path ++ Resolver.indexName))).leading = [] := by
    refine FilePath.leading_eq_nil_iff.2 ⟨?_, ?_⟩
    · rw [FilePath.isAbsolute, spelled, List.head?_append_of_ne_nil _ (bytes_ne_nil filled)]
      exact relative
    · rw [pieces, List.head?_append_of_ne_nil _ (FilePath.pieces_ne_nil _)]
      exact start
  refine ⟨names ++ [Text.bytes "index"], ?_⟩
  rw [FilePath.parts, lead, List.nil_append, pieces, List.filterMap_append,
    FilePath.pieces_of_names named, List.map_append]
  rfl

theorem Resolver.ending_free {root : FilePath} {space extension : Text}
    (whole : slash ∉ extension) : slash ∉ (Resolver.of root space extension).ending := by
  rw [ending, List.mem_cons, not_or]
  exact ⟨by decide, fun inside => whole ((List.dropWhile_sublist _).subset inside)⟩

theorem Resolver.ending_ne_dotDot {root : FilePath} {space extension : Text} :
    (Resolver.of root space extension).ending ≠ ['.', '.'] := by
  intro same
  have bare : withoutDots extension = ['.'] := (List.cons.inj same).2
  have first := List.head?_dropWhile_not (fun c => decide (c = '.')) extension
  rw [show extension.dropWhile (fun c => decide (c = '.')) = ['.'] from bare] at first
  simp at first

theorem belowRoot_of_isFile (free : slash ∉ resolver.ending) (dotted : resolver.ending ≠ ['.', '.'])
    (filled : path ≠ []) (named : ∃ names : List Name, (FilePath.mk path).parts = names.map .name)
    (file : tree.isFile (resolver.locate (path ++ resolver.ending)).path = true) :
    BelowRoot tree resolver (resolver.locate (path ++ resolver.ending)) := by
  obtain ⟨stem, whole⟩ := named
  have spelled : Text.bytes (path ++ resolver.ending)
      = Text.bytes path ++ Text.bytes resolver.ending := bytes_append path resolver.ending
  have freed : slashByte ∉ Text.bytes resolver.ending :=
    mt (toUInt8_mem_bytes_iff (by decide)).1 free
  have stepless : Text.bytes resolver.ending ≠ dotDot := fun up => dotted (bytes_injective up)
  have there : tree.isFile
      (resolver.root.joined ⟨Text.bytes path ++ Text.bytes resolver.ending⟩) = true := by
    rw [← spelled]
    exact file
  obtain ⟨names, parts⟩ :=
    FileTree.names_of_isFile whole (bytes_ne_nil filled) freed stepless there
  rw [← spelled] at parts
  have relative := (FilePath.leading_eq_nil_iff.1 (FilePath.leading_of_names parts)).1
  obtain ⟨content, found⟩ := FileTree.isFile_iff.1 file
  obtain ⟨key, located, node⟩ := FileTree.find?_eq_ok found
  have place : key = tree.destinationOf resolver.root ++ names := by
    have rootless : FilePath.Part.root ∉ names.map FilePath.Part.name := by simp
    rw [FileTree.locate_eq_ok located, Resolver.locate, FilePath.joined_parts_of_names parts,
      FileTree.destination_append rootless, foldl_placeOf_names, FileTree.destinationOf]
  refine ⟨rfl, relative, ?_, ⟨path, filled, ⟨stem, whole⟩, rfl⟩, fun spelled => ?_, names, content,
    ?_, parts, place ▸ located, place ▸ node⟩
  · rw [Resolver.locate, parts]
    simp
  · obtain ⟨here, led, -, -⟩ := FileTree.locate_joined spelled relative located
    rw [led, FileTree.locate_eq_ok led, FileTree.destinationOf]
  · rintro rfl
    have filled : Text.bytes (path ++ resolver.ending) ≠ [] := bytes_ne_nil (by simp [filled])
    exact FilePath.parts_ne_nil filled parts

theorem belowRoot_of_firstFound (free : slash ∉ resolver.ending)
    (dotted : resolver.ending ≠ ['.', '.']) (means : resolver.Means specifier path)
    (found : FirstFound tree resolver path location) : BelowRoot tree resolver location := by
  cases found with
  | file there => exact belowRoot_of_isFile free dotted means.filled means.named there
  | index missing there =>
    obtain ⟨names, named⟩ := means.named
    have longer : path ++ Resolver.indexName ≠ [] := by simp [means.filled]
    rw [← List.append_assoc] at there ⊢
    exact belowRoot_of_isFile free dotted longer (index_of_names named means.filled) there

theorem belowRoot_of_resolve {root : FilePath} {space extension : Text}
    (whole : slash ∉ extension)
    (resolved : (Resolver.of root space extension).resolve tree specifier = some location) :
    BelowRoot tree (Resolver.of root space extension) location := by
  obtain ⟨path, means, found⟩ := resolve_eq_some_iff.1 resolved
  exact belowRoot_of_firstFound (Resolver.ending_free whole) Resolver.ending_ne_dotDot means found

/-- A specifier is resolved to the first file that there is for the path that it says, and
    that file lies below the root. -/
theorem resolved_below_root (root : FilePath) (space extension : Text) (whole : slash ∉ extension)
    (tree : FileTree) (specifier : Text) (location : Location) :
    let resolver := Resolver.of root space extension
    (resolver.resolve tree specifier = some location ↔
        ∃ path, resolver.Means specifier path ∧ FirstFound tree resolver path location) ∧
      (resolver.resolve tree specifier = some location → BelowRoot tree resolver location) := by
  intro resolver
  exact ⟨resolve_eq_some_iff, belowRoot_of_resolve whole⟩

/-! A specifier with doubled slashes, a dot and a slash behind it, for an index file. -/

theorem index_below_root :
    slash ∉ ("gjs" : Text) ∧
      (Resolver.of ⟨"./app/components"⟩ "app/components" "gjs").resolve twoFilesTree
        "app/components//form/./" = some ⟨⟨"./app/components/form/./index.gjs"⟩,
          "form/./index.gjs"⟩ ∧
      BelowRoot twoFilesTree (Resolver.of ⟨"./app/components"⟩ "app/components" "gjs")
        ⟨⟨"./app/components/form/./index.gjs"⟩, "form/./index.gjs"⟩ := by
  have whole : slash ∉ ("gjs" : Text) := by decide
  have resolved : (Resolver.of ⟨"./app/components"⟩ "app/components" "gjs").resolve twoFilesTree
      "app/components//form/./" = some ⟨⟨"./app/components/form/./index.gjs"⟩,
        "form/./index.gjs"⟩ := by decide +kernel
  exact ⟨whole, resolved, (resolved_below_root ⟨"./app/components"⟩ "app/components" "gjs" whole
    twoFilesTree "app/components//form/./" _).2 resolved⟩

end ComponentBundle.Project
