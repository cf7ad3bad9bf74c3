import ComponentBundle.Proofs.CompiledAssets
import ComponentBundle.Proofs.TreeReading

/-!
Resolving a specifier against listing the component files. What is resolved is a file below the
root, but it is listed only under the plain spelling of its relative path, by an extension that
its name has as a whole, and below a root that has a spelling at all. Another file may be listed
under its relative path as well, if it has a name that is no text.
-/
namespace ComponentBundle.Files
open ComponentBundle.Text

variable {tree : FileTree} {root path : FilePath} {key : Key} {names : List Name}

/-- A path without doubled slashes, slashes at its ends and dots: it is spelled by the names
    that it is made of. -/
def Plain (path : Text) : Prop := ∀ piece ∈ splitOn slash path, ProperName (Text.bytes piece)

instance (path : Text) : Decidable (Plain path) :=
  inferInstanceAs (Decidable (∀ piece ∈ splitOn slash path, ProperName (Text.bytes piece)))

theorem plain_shown (filled : names ≠ []) (proper : ∀ name ∈ names, ProperName name) :
    Plain (join [slash] (names.map Text.shown)) := by
  have free : ∀ piece ∈ names.map Text.shown, slash ∉ piece := by
    simp only [List.forall_mem_map, mem_shown_iff (c := slash) (by decide)]
    exact fun name inside => (proper name inside).whole
  rw [Plain, splitOn_join (by simpa using filled) free, List.forall_mem_map]
  exact fun name inside => (proper name inside).shown

theorem extension?_below (spelled : root.spelling ≠ []) (filled : names ≠ [])
    (proper : ∀ name ∈ names, ProperName name) :
    (root.below names).extension? = (FilePath.mk ([slashByte].intercalate names)).extension? := by
  have last : (root.parts ++ names.map FilePath.Part.name).getLast?
      = (names.map FilePath.Part.name).getLast? := by
    rw [List.getLast?_append_of_ne_nil _ (by simpa using filled)]
  simp only [FilePath.extension?, FilePath.fileName?, FilePath.parts_below spelled proper,
    parts_join proper, last]

theorem extension?_shown {extension : Text} (filled : names ≠ [])
    (proper : ∀ name ∈ names, ProperName name)
    (h : (FilePath.mk ([slashByte].intercalate names)).extension? = some (Text.bytes extension)) :
    (FilePath.mk (Text.bytes (join [slash] (names.map Text.shown)))).extension?
      = some (Text.bytes extension) := by
  obtain ⟨front, last, rfl⟩ := List.eq_nil_or_concat names |>.resolve_left filled
  rw [List.concat_eq_append] at proper h ⊢
  obtain ⟨stem, own, called, free⟩ := FilePath.extension?_eq_some_iff.1 h
  obtain rfl := Option.some.inj ((fileName?_join proper).symm.trans called)
  have shown : Text.bytes (Text.shown (stem ++ dotByte :: Text.bytes extension))
      = Text.bytes (Text.shown stem) ++ dotByte :: Text.bytes extension := by
    rw [dotByte, shown_append_ascii (by decide), shown_bytes, bytes_middle (by decide)]
  refine FilePath.extension?_eq_some_iff.2
    ⟨_, bytes_ne_nil (mt shown_eq_nil_iff.1 own), ?_, free⟩
  rw [ofText_join, List.map_map, List.map_append, List.map_singleton, ← shown]
  refine fileName?_join fun name inside => ?_
  rw [← List.map_singleton, ← List.map_append] at inside
  obtain ⟨original, member, rfl⟩ := List.mem_map.1 inside
  exact (proper original member).shown

namespace FileTree

theorem locate_joined (spelled : root.spelling ≠ []) (relative : path.isAbsolute = false)
    (h : tree.locate (root.joined path) = .ok key) :
    ∃ here, tree.locate root = .ok here ∧ tree.node? here = some .directory ∧
      tree.follow here path.pieces = .ok key := by
  have absolute := FilePath.joined_isAbsolute spelled relative
  have filled := FilePath.pieces_ne_nil path
  rw [locate, if_neg (by simpa using spelled_of_locate h), start, absolute, ← start] at h
  rw [locate, if_neg (by simpa using spelled)]
  rcases FilePath.joined_pieces spelled relative with whole | ⟨front, -, split, cut⟩
  · obtain ⟨here, led, behind⟩ := follow_append_eq_ok_iff.1 (whole ▸ h)
    exact ⟨here, led, follow_ne_nil behind filled, behind⟩
  · obtain ⟨here, led, behind⟩ := follow_append_eq_ok_iff.1 (cut ▸ h)
    have found := follow_ne_nil behind filled
    have blank : tree.follow here [[]] = .ok here := follow_blank (by simp) found
    exact ⟨here, split ▸ follow_append_eq_ok_iff.2 ⟨here, led, blank⟩, found, behind⟩

theorem isFile_not_slashed (h : tree.isFile path = true) :
    path.spelling.getLast? ≠ some slashByte := by
  intro slashed
  obtain ⟨front, ended⟩ := List.getLast?_eq_some_iff.1 slashed
  obtain ⟨content, found⟩ := isFile_iff.1 h
  obtain ⟨key, located, node⟩ := find?_eq_ok found
  have pieces : path.pieces = splitOn slashByte front ++ [[]] := by
    rw [FilePath.pieces, ended, splitOn_append_cons]
    rfl
  rw [locate, if_neg (by simp [ended]), pieces] at located
  obtain ⟨here, -, last⟩ := follow_append_eq_ok_iff.1 located
  have directory := follow_ne_nil last (List.cons_ne_nil _ _)
  rw [follow_blank (by simp) directory] at last
  obtain rfl := Except.ok.inj last
  simp [node] at directory

theorem follow_names (proper : ∀ name ∈ names, ProperName name)
    (h : tree.follow key names = .ok here) : here = key ++ names := by
  have parts : names.filterMap FilePath.part? = names.map .name :=
    List.filterMap_eq_map_iff_forall_eq_some.2 fun name inside => (proper name inside).part
  rw [follow_eq_ok h, parts, foldl_placeOf_names]

end FileTree

end ComponentBundle.Files

namespace ComponentBundle.Project
open ComponentBundle.Text ComponentBundle.Files

variable {tree : FileTree} {root : FilePath} {space extension specifier : Text}
  {resolver : Resolver} {entry location : Location}

theorem not_absolute_of_isName {path : Text}
    (names : (FilePath.mk (Text.bytes path)).parts.all Resolver.isName = true) :
    path.head? ≠ some slash := by
  intro slashed
  have absolute := isAbsolute_bytes.2 slashed
  have lead : (FilePath.mk (Text.bytes path)).leading = [.root] := by
    rw [FilePath.leading, if_pos absolute]
  simp [FilePath.parts, lead, Resolver.isName] at names

structure Resolved (resolver : Resolver) (tree : FileTree) (location : Location) : Prop where
  placed : location = resolver.locate location.relative
  file : tree.isFile location.path = true
  stem : ∃ stem, stem ≠ [] ∧ stem.head? ≠ some slash ∧
    location.relative = stem ++ resolver.ending

theorem resolve_resolved (h : resolver.resolve tree specifier = some location) :
    Resolved resolver tree location := by
  refine ⟨Resolver.resolve_locate h, Resolver.resolve_isFile h, ?_⟩
  obtain ⟨path, below, found⟩ := Option.bind_eq_some_iff.1 h
  obtain ⟨candidate, probed, rfl⟩ := List.mem_map.1 (List.mem_of_find?_eq_some found)
  obtain ⟨filled, head⟩ : path ≠ [] ∧ path.head? ≠ some slash := by
    unfold Resolver.pathBelowRoot? at below
    dsimp only at below
    split at below
    · contradiction
    · rename_i allowed
      obtain rfl := Option.some.inj below
      simp only [Bool.or_eq_true, Bool.not_eq_true', not_or, Bool.not_eq_false,
        List.isEmpty_iff] at allowed
      exact ⟨allowed.1, not_absolute_of_isName allowed.2⟩
  obtain ⟨first, more, start⟩ := List.exists_cons_of_ne_nil filled
  rcases List.mem_cons.1 probed with rfl | index
  · exact ⟨path, filled, head, rfl⟩
  · obtain rfl := List.mem_singleton.1 index
    refine ⟨path ++ Resolver.indexName, by simp [filled], by simpa [start] using head, ?_⟩
    simp [Resolver.locate]

theorem reachable_resolved (first : Resolved resolver tree entry)
    (reached : Reachable resolver tree entry location) : Resolved resolver tree location := by
  cases reached with
  | refl => exact first
  | tail path import_ =>
    obtain ⟨component, specifier, -, -, resolved⟩ := import_
    exact resolve_resolved resolved

theorem Resolved.relative_ne_nil (resolved : Resolved resolver tree location) :
    location.relative ≠ [] := by
  obtain ⟨stem, filled, -, relative⟩ := resolved.stem
  simp [relative, filled]

theorem Resolved.relative_head (resolved : Resolved resolver tree location) :
    location.relative.head? ≠ some slash := by
  obtain ⟨stem, filled, head, relative⟩ := resolved.stem
  obtain ⟨first, more, rfl⟩ := List.exists_cons_of_ne_nil filled
  simpa [relative] using head

theorem Resolved.relative_not_absolute (resolved : Resolved resolver tree location) :
    (FilePath.mk (Text.bytes location.relative)).isAbsolute = false :=
  Bool.eq_false_iff.2 (mt isAbsolute_bytes.1 resolved.relative_head)

/-- What it takes for a resolved file to be listed by an extension. -/
structure Listable (root : FilePath) (extension relative : Text) : Prop where
  rooted : root.spelling ≠ []
  plain : Plain relative
  extended : (FilePath.mk (Text.bytes relative)).extension?
    = some (Text.bytes (withoutDots extension))

instance (root : FilePath) (extension relative : Text) :
    Decidable (Listable root extension relative) :=
  decidable_of_iff (root.spelling ≠ [] ∧ Plain relative ∧
      (FilePath.mk (Text.bytes relative)).extension? = some (Text.bytes (withoutDots extension)))
    ⟨fun ⟨rooted, plain, extended⟩ => ⟨rooted, plain, extended⟩,
      fun ⟨rooted, plain, extended⟩ => ⟨rooted, plain, extended⟩⟩

theorem listable_of_entry (named : tree.ProperlyNamed) {key : Key} {names : List Name}
    {content : Content} (located : tree.locate root = .ok key)
    (entry : (key ++ names, .file content) ∈ tree.entries) (filled : names ≠ [])
    (extended : (root.below names).extension? = some (Text.bytes (withoutDots extension))) :
    Listable root extension (join [slash] (names.map Text.shown)) := by
  have proper := named.below entry
  have spelled := FileTree.spelled_of_locate located
  exact ⟨spelled, plain_shown filled proper,
    extension?_shown filled proper (extension?_below spelled filled proper ▸ extended)⟩

theorem listable_of_listed (named : tree.ProperlyNamed) {relative : Text} (filled : relative ≠ [])
    (listed : relative ∈ (componentFiles tree root extension).map Location.relative) :
    Listable root extension relative := by
  obtain ⟨file, found, rfl⟩ := List.mem_map.1 listed
  obtain ⟨key, names, content, located, entry, rfl, extended⟩ := mem_componentFiles.1 found
  refine listable_of_entry named located entry ?_ extended
  rintro rfl
  exact filled rfl

theorem listed_of_listable (resolved : Resolved resolver tree location)
    (listable : Listable resolver.root extension location.relative) :
    location.relative ∈
      (componentFiles tree resolver.root extension).map Location.relative := by
  obtain ⟨rooted, plain, extended⟩ := listable
  obtain ⟨content, found⟩ := FileTree.isFile_iff.1 resolved.file
  obtain ⟨key, located, node⟩ := FileTree.find?_eq_ok found
  rw [resolved.placed] at located
  obtain ⟨here, root, -, behind⟩ :=
    FileTree.locate_joined rooted resolved.relative_not_absolute located
  have filled : (splitOn slash location.relative).map Text.bytes ≠ [] :=
    fun none_ => splitWhere_ne_nil _ _ (List.map_eq_nil_iff.1 none_)
  have proper : ∀ name ∈ (splitOn slash location.relative).map Text.bytes, ProperName name :=
    List.forall_mem_map.2 plain
  have pieces : (FilePath.mk (Text.bytes location.relative)).pieces
      = (splitOn slash location.relative).map Text.bytes := splitOn_bytes (by decide) _
  have relative := join_splitOn slash location.relative
  have shown : ((splitOn slash location.relative).map Text.bytes).map Text.shown
      = splitOn slash location.relative := by
    simp [Function.comp_def, shown_bytes]
  rw [pieces] at behind
  rw [FileTree.follow_names proper behind] at node
  refine List.mem_map.2
    ⟨⟨resolver.root.below ((splitOn slash location.relative).map Text.bytes), _⟩,
    mem_componentFiles.2 ⟨here, _, content, root, FileTree.node?_entry node, rfl, ?_⟩, ?_⟩
  · rw [extension?_below rooted filled proper, ← ofText_join, relative, extended]
  · rw [shown, relative]

theorem Resolved.listed_iff (resolved : Resolved resolver tree location)
    (named : tree.ProperlyNamed) (extension : Text) :
    location.relative ∈ (componentFiles tree resolver.root extension).map Location.relative ↔
      Listable resolver.root extension location.relative :=
  ⟨listable_of_listed named resolved.relative_ne_nil, listed_of_listable resolved⟩

theorem count_map_eq_one_iff {α β : Type} [BEq β] [LawfulBEq β] {l : List α} (apart : l.Nodup)
    {f : α → β} {b : β} :
    (l.map f).count b = 1 ↔ b ∈ l.map f ∧ ∀ x ∈ l, ∀ y ∈ l, f x = b → f y = b → x = y := by
  have count : (l.map f).count b = (l.filter fun a => f a == b).length := by
    rw [List.count_eq_countP, List.countP_map, List.countP_eq_length_filter]
    rfl
  have inside {x : α} : x ∈ l.filter (fun a => f a == b) ↔ x ∈ l ∧ f x = b := by simp
  rw [count, List.length_eq_one_iff]
  constructor
  · rintro ⟨a, alone⟩
    have only {x : α} (member : x ∈ l) (same : f x = b) : x = a := by
      have kept := inside.2 ⟨member, same⟩
      rwa [alone, List.mem_singleton] at kept
    obtain ⟨member, own⟩ := inside.1 (alone ▸ List.mem_singleton_self a)
    exact ⟨List.mem_map.2 ⟨a, member, own⟩,
      fun x first y second sameX sameY => (only first sameX).trans (only second sameY).symm⟩
  · rintro ⟨found, alike⟩
    obtain ⟨a, member, own⟩ := List.mem_map.1 found
    refine ⟨a, List.perm_singleton.1 ((List.perm_ext_iff_of_nodup (apart.filter _)
      (List.nodup_singleton a)).2 fun x => ?_)⟩
    rw [inside, List.mem_singleton]
    constructor
    · rintro ⟨other, same⟩
      exact alike x other a member same own
    · rintro rfl
      exact ⟨member, own⟩

theorem count_relative_eq_one_iff (named : tree.ProperlyNamed) {relative : Text} :
    ((componentFiles tree root extension).map Location.relative).count relative = 1 ↔
      relative ∈ (componentFiles tree root extension).map Location.relative ∧
        ShownOnce tree root extension relative := by
  rw [count_map_eq_one_iff (componentFiles_apart named root extension).of_map]
  simp only [mem_componentFiles, ShownOnce]
  exact and_congr_right fun _ => ⟨fun alike a b first second => alike a first b second,
    fun alike a first b second => alike a b first second⟩

end ComponentBundle.Project

namespace ComponentBundle.Bundle
open ComponentBundle.Text ComponentBundle.Files ComponentBundle.Project

variable {tree : FileTree} {settings : Settings} {package : Package} {base : Text} {made : Plan}
  {compilation : Compilation}

theorem mapM_eq_error {α β ε : Type} {f : α → Except ε β} {l : List α} {problem : ε}
    (h : l.mapM f = .error problem) : ∃ a ∈ l, f a = .error problem := by
  induction l with
  | nil => contradiction
  | cons a l ih =>
    rw [List.mapM_cons] at h
    cases first : f a with
    | error fault =>
      obtain rfl : fault = problem := by simpa [first, bind, Except.bind] using h
      exact ⟨a, List.mem_cons_self, first⟩
    | ok b =>
      cases rest : l.mapM f with
      | error fault =>
        obtain rfl : fault = problem := by simpa [first, rest, bind, Except.bind] using h
        obtain ⟨other, inside, refused⟩ := ih rest
        exact ⟨other, List.mem_cons_of_mem _ inside, refused⟩
      | ok more => simp [first, rest, bind, Except.bind, pure, Except.pure] at h

theorem compileListed_misses_iff :
    (∃ problem, compileListed tree made = .error problem ∧ problem.code = Code.moduleNotFound) ↔
      made.entry.relative ∉
        (componentFiles tree made.resolver.root made.resolver.extension).map
          Location.relative := by
  unfold compileListed
  dsimp only
  split
  · rename_i absent
    have missed : made.entry.relative ∉ (componentFiles tree made.resolver.root
        made.resolver.extension).map Location.relative := by simpa using absent
    exact iff_of_true ⟨_, rfl, rfl⟩ missed
  · rename_i present
    have found : made.entry.relative ∈ (componentFiles tree made.resolver.root
        made.resolver.extension).map Location.relative := by simpa using present
    refine iff_of_false ?_ (not_not_intro found)
    rintro ⟨problem, failed, code⟩
    cases read : (componentFiles tree made.resolver.root made.resolver.extension).mapM
        (readComponent tree) with
    | ok components => simp [read, bind, Except.bind, pure, Except.pure] at failed
    | error fault =>
      obtain rfl : fault = problem := by
        simpa [read, bind, Except.bind, pure, Except.pure] using failed
      obtain ⟨file, -, unread⟩ := mapM_eq_error read
      obtain ⟨reason, -, rfl⟩ := readComponent_eq_error unread
      simp [Problem.code, Problem.report, Code.fileFault, Code.moduleNotFound] at code

theorem compile_of_plan (mirror : settings.mode = .mirror)
    (planned : plan tree settings package base = .ok made) :
    compile tree settings package base = compileListed tree made := by
  rw [compile, planned]
  simp only [bind, Except.bind, mirror]

/-- What is resolved below a root is listed there exactly if the root, the extension and the
    spelling of its relative path let it, and then once, unless a file with another name is
    shown alike. So a project whose component files are all compiled misses its entry exactly if
    that cannot be listed, and each module that the entry reaches is among the compiled ones
    exactly if it can. -/
theorem resolved_listed_once_iff (named : tree.ProperlyNamed) :
    (∀ (root : FilePath) (space extension specifier : Text) (location : Location),
        (Resolver.of root space extension).resolve tree specifier = some location →
          (location.relative ∈ (componentFiles tree root extension).map Location.relative ↔
            Listable root extension location.relative) ∧
          (((componentFiles tree root extension).map Location.relative).count location.relative
            = 1 ↔ Listable root extension location.relative ∧
              ShownOnce tree root extension location.relative)) ∧
      ∀ (settings : Settings) (package : Package) (base : Text) (made : Plan),
        settings.mode = .mirror → plan tree settings package base = .ok made →
          ((∃ problem, compile tree settings package base = .error problem ∧
              problem.code = Code.moduleNotFound) ↔
            ¬ Listable settings.modulesPath settings.extension made.entry.relative) ∧
          ∀ compilation, compile tree settings package base = .ok compilation →
            ∀ location, Reachable made.resolver tree made.entry location →
              (location.relative ∈ compilation.modules ↔
                Listable settings.modulesPath settings.extension location.relative) ∧
              (compilation.modules.count location.relative = 1 ↔
                Listable settings.modulesPath settings.extension location.relative ∧
                  ShownOnce tree settings.modulesPath settings.extension location.relative) := by
  refine ⟨fun root space extension specifier location resolved => ?_, ?_⟩
  · have listed := (resolve_resolved resolved).listed_iff named extension
    exact ⟨listed, (count_relative_eq_one_iff named).trans (and_congr_left' listed)⟩
  · intro settings package base made mirror planned
    rw [compile_of_plan mirror planned]
    have follows := plan_follows planned
    obtain ⟨specifier, entry, -, resolved, rfl⟩ := plan_eq_ok_iff.1 planned
    have first := resolve_resolved resolved
    have files : componentFiles tree (planFor settings package base entry).resolver.root
        (planFor settings package base entry).resolver.extension
          = componentFiles tree settings.modulesPath settings.extension :=
      componentFiles_withoutDots tree settings.modulesPath settings.extension
    refine ⟨?_, fun compilation compiled location reached => ?_⟩
    · rw [compileListed_misses_iff]
      have listed := first.listed_iff named settings.extension
      exact not_congr (files ▸ listed)
    · have holds := compileListed_eq_ok follows mirror compiled
      simp only [Compilation.Holds, mirror] at holds
      obtain ⟨-, -, -, modules, -⟩ := holds
      have listed := (reachable_resolved first reached).listed_iff named settings.extension
      rw [modules, files]
      exact ⟨listed, (count_relative_eq_one_iff named).trans (and_congr_left' listed)⟩

theorem two_files_listed_once :
    twoFilesTree.ProperlyNamed ∧
      ((Resolver.of twoFilesSettings.modulesPath "app/components" "gjs").resolve twoFilesTree
        "form").map Location.relative = some ("form/index.gjs" : Text) ∧
      ((componentFiles twoFilesTree twoFilesSettings.modulesPath "gjs").map
        Location.relative).count ("form/index.gjs" : Text) = 1 ∧
      plan twoFilesTree twoFilesSettings {} twoFilesBase = .ok twoFilesPlan ∧
      ¬ ∃ problem, compile twoFilesTree twoFilesSettings {} twoFilesBase = .error problem ∧
        problem.code = Code.moduleNotFound := by
  have named : twoFilesTree.ProperlyNamed := by decide +kernel
  have planned : plan twoFilesTree twoFilesSettings {} twoFilesBase = .ok twoFilesPlan := by
    decide +kernel
  have resolved : (Resolver.of twoFilesSettings.modulesPath "app/components" "gjs").resolve
      twoFilesTree "form" = some ⟨⟨"./app/components/form/index.gjs"⟩, "form/index.gjs"⟩ := by
    decide +kernel
  obtain ⟨listed, compiled⟩ := resolved_listed_once_iff named
  have written : twoFilesTree.NamedInText := by decide +kernel
  have once := (listed _ _ _ _ _ resolved).2.2
    ⟨by decide +kernel, shownOnce_of_namedInText written named _⟩
  refine ⟨named, by rw [resolved]; rfl, once, planned, fun missed => ?_⟩
  have unlisted := (compiled twoFilesSettings {} twoFilesBase twoFilesPlan rfl planned).1.1 missed
  exact unlisted (by decide +kernel)

/-! A component file whose extension has a dot in it is resolved, and is not listed. -/

def typedTree : FileTree :=
  (FileTree.atHome []).put ["app"] .directory
    |>.put ["app", "components"] .directory
    |>.put ["app", "components", "main.d.ts"] (.file (.text "export default 1;"))

def typedSettings : Settings :=
  { entryPoint := some "main", extension := "d.ts", mode := .mirror }

theorem typed_entry_missed :
    ((Resolver.of typedSettings.modulesPath "app/components" typedSettings.extension).resolve
        typedTree "main").map Location.relative = some ("main.d.ts" : Text) ∧
      componentFiles typedTree typedSettings.modulesPath typedSettings.extension = [] ∧
      compile typedTree typedSettings {} "http://localhost:4205"
        = .error (.moduleNotFound "main.d.ts" "./app/components") := by
  decide +kernel

end ComponentBundle.Bundle
