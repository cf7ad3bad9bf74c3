import Mathlib.Data.List.TakeDrop
import ComponentBundle.Proofs.ResolvedComponents

/-!
The names and addresses under which a manifest tells of modules. A component file is told from
all others by what stands before its ending, so its address is its own, and so is its name unless
names are capitalized: stems that differ can have one capital form.
-/
namespace ComponentBundle.Bundle
open ComponentBundle.Text ComponentBundle.Files ComponentBundle.Project

/-- A path with something in it and no slash at its ends. -/
structure Bare (path : Text) : Prop where
  filled : path ≠ []
  start : path.head? ≠ some slash
  stop : path.getLast? ≠ some slash

theorem Bare.withoutSlashes {path : Text} (bare : Bare path) : withoutSlashes path = path := by
  obtain ⟨first, more, rfl⟩ := List.exists_cons_of_ne_nil bare.filled
  have start : first ≠ slash := by simpa using bare.start
  have lead : (first :: more).dropWhile (· = slash) = first :: more := by simp [start]
  obtain ⟨front, last, split⟩ := List.eq_nil_or_concat (first :: more) |>.resolve_left (by simp)
  have stop : last ≠ slash := by
    have ended := bare.stop
    rw [split] at ended
    simpa using ended
  rw [Project.withoutSlashes, lead, withoutSlashesBehind, split]
  simp [stop]

theorem joinedUrl_eq (base publicUrl : Text) :
    ∃ front, ∀ path, Bare path → joinedUrl base publicUrl path = front ++ path := by
  obtain ⟨front, ends⟩ := join_concat [slash]
    (([base, publicUrl].map withoutSlashes).filter fun part => !part.isEmpty)
  refine ⟨front, fun path bare => ?_⟩
  have own : ([path].map withoutSlashes).filter (fun part => !part.isEmpty) = [path] := by
    simp [bare.withoutSlashes, bare.filled]
  have split : [base, publicUrl, path].map withoutSlashes
      = [base, publicUrl].map withoutSlashes ++ [path].map withoutSlashes := rfl
  rw [joinedUrl, split, List.filter_append, own, ends]

structure ComponentPath (extension path : Text) : Prop where
  bare : Bare path
  stem : ∃ stem, path = stem ++ '.' :: withoutDots extension

theorem publicName_stem {release : Release} {path stem : Text}
    (split : path = stem ++ '.' :: withoutDots release.extension) :
    publicName release path
      = if release.mode = .mirror then ['.', slash] ++ capitalized stem
        else release.space ++ slash :: stem := by
  have cut : before? ('.' :: withoutDots release.extension) path = some stem :=
    before?_eq_some_iff.2 split
  rw [publicName, cut]
  cases release.mode <;> rfl

def Manifest.items (manifest : Manifest) : List ManifestItem :=
  manifest.main :: manifest.dependencies.getD []

def Compilation.toldPaths (compilation : Compilation) (plan : Plan) : List Text :=
  plan.entry.relative :: (compilation.assets.map Asset.path).filter (· ≠ plan.entry.relative)

theorem items_of_told {compilation : Compilation} {made : Plan} (told : compilation.Told made) :
    compilation.manifest.items.map ManifestItem.url
        = (compilation.toldPaths made).map (joinedUrl made.base made.release.publicUrl) ∧
      compilation.manifest.items.map ManifestItem.name
        = (compilation.toldPaths made).map (publicName made.release) := by
  obtain ⟨main, -, entry, manifest⟩ := told
  simp only [manifest, Manifest.items, Compilation.toldPaths, Option.getD_some, List.map_cons,
    List.filter_map, List.map_map, ← entry]
  exact ⟨rfl, rfl⟩

theorem mem_toldPaths {compilation : Compilation} {made : Plan} (told : compilation.Told made)
    {path : Text} :
    path ∈ compilation.toldPaths made ↔ path ∈ compilation.assets.map Asset.path := by
  obtain ⟨main, member, entry, -⟩ := told
  have found := List.mem_map_of_mem (f := Asset.path) member
  rw [entry] at found
  rw [Compilation.toldPaths, List.mem_cons, List.mem_filter, decide_eq_true_eq]
  constructor
  · rintro (rfl | ⟨inside, -⟩)
    · exact found
    · exact inside
  · intro inside
    by_cases same : path = made.entry.relative
    · exact .inl same
    · exact .inr ⟨inside, same⟩

theorem joined_last {a b : FilePath} (filled : b.spelling ≠ []) :
    (a.joined b).spelling.getLast? = b.spelling.getLast? := by
  unfold FilePath.joined
  split
  · rfl
  · split
    · exact List.getLast?_append_of_ne_nil _ filled
    · rw [List.append_cons]
      exact List.getLast?_append_of_ne_nil _ filled

variable {tree : FileTree} {settings : Settings} {package : Package} {base : Text} {made : Plan}
  {compilation : Compilation} {location : Location} {root : FilePath} {extension : Text}

theorem resolved_componentPath {resolver : Resolver} (resolved : Resolved resolver tree location)
    (spelled : resolver.extension = withoutDots extension) :
    ComponentPath extension location.relative := by
  obtain ⟨stem, -, -, relative⟩ := resolved.stem
  have file : tree.isFile (resolver.root.joined ⟨Text.bytes location.relative⟩) = true :=
    resolved.placed ▸ resolved.file
  have stop : location.relative.getLast? ≠ some slash := fun last =>
    FileTree.isFile_not_slashed file <|
      (joined_last (b := ⟨Text.bytes location.relative⟩)
        (bytes_ne_nil resolved.relative_ne_nil)).trans
        ((getLast?_bytes_iff (by decide)).2 last)
  refine ⟨⟨resolved.relative_ne_nil, resolved.relative_head, stop⟩, stem, ?_⟩
  rw [relative, Resolver.ending, spelled]

theorem Bare.of_plain {path : Text} (plain : Plain path) : Bare path := by
  have free : [] ∉ splitOn slash path := fun inside => (plain [] inside).ne_nil rfl
  refine ⟨?_, fun slashed => ?_, fun slashed => ?_⟩
  · rintro rfl
    exact free (List.mem_singleton_self _)
  · obtain ⟨rest, rfl⟩ := List.head?_eq_some_iff.1 slashed
    have cut := splitOn_append_cons slash [] rest
    rw [List.nil_append] at cut
    exact free (cut ▸ List.mem_append_left _ (List.mem_singleton_self _))
  · obtain ⟨front, rfl⟩ := List.getLast?_eq_some_iff.1 slashed
    rw [splitOn_append_cons] at free
    exact free (List.mem_append_right _ (List.mem_singleton_self _))

theorem componentPath_of_listable {path : Text} (listable : Listable root extension path) :
    ComponentPath extension path := by
  obtain ⟨-, plain, extended⟩ := listable
  refine ⟨.of_plain plain, ?_⟩
  obtain ⟨stem, -, called, -⟩ := FilePath.extension?_eq_some_iff.1 extended
  have whole := join_splitOn slash path
  obtain ⟨front, last, split⟩ := List.eq_nil_or_concat (splitOn slash path)
    |>.resolve_left (splitWhere_ne_nil _ _)
  rw [List.concat_eq_append] at split
  have named : (FilePath.mk (Text.bytes path)).fileName? = some (Text.bytes last) := by
    rw [← whole, ofText_join, split, List.map_append, List.map_singleton]
    refine fileName?_join fun name inside => ?_
    rw [← List.map_singleton, ← List.map_append] at inside
    obtain ⟨piece, member, rfl⟩ := List.mem_map.1 inside
    exact plain piece (split ▸ member)
  have ended : Text.bytes last
      = stem ++ (Text.bytes ['.'] ++ Text.bytes (withoutDots extension)) :=
    Option.some.inj (named.symm.trans called)
  obtain ⟨before, behind, rfl, -, rest⟩ := cut_of_bytes (List.cons_ne_nil _ _) ended
  obtain ⟨lead, ends⟩ := join_concat [slash] front
  refine ⟨lead ++ before, ?_⟩
  rw [← whole, split, ends, bytes_injective rest, List.append_assoc]
  rfl

theorem listed_componentPath (named : tree.ProperlyNamed) {key : Key}
    (located : tree.locate root = .ok key) (directory : tree.node? key = some .directory)
    (listed : ComponentAt tree root extension location) :
    ComponentPath extension location.relative := by
  obtain ⟨here, names, content, found, entry, rfl, extended⟩ := listed
  obtain rfl := Except.ok.inj (located.symm.trans found)
  refine componentPath_of_listable (listable_of_entry named located entry ?_ extended)
  rintro rfl
  have present : key ≠ [] := FileTree.locate_ne_nil extended located
  rw [List.append_nil] at entry
  simp [(FileTree.mem_entries_iff present).1 entry] at directory

theorem resolved_directory {resolver : Resolver} (resolved : Resolved resolver tree location)
    (spelled : resolver.root.spelling ≠ []) :
    ∃ key, tree.locate resolver.root = .ok key ∧ tree.node? key = some .directory := by
  obtain ⟨content, found⟩ := FileTree.isFile_iff.1 resolved.file
  obtain ⟨key, located, -⟩ := FileTree.find?_eq_ok found
  rw [resolved.placed] at located
  obtain ⟨here, root, directory, -⟩ :=
    FileTree.locate_joined spelled resolved.relative_not_absolute located
  exact ⟨here, root, directory⟩

theorem compiled_componentPath (named : tree.ProperlyNamed) (several : settings.mode ≠ .single)
    (h : compile tree settings package base = .ok compilation) :
    ∀ asset ∈ compilation.assets, ComponentPath settings.extension asset.path := by
  obtain ⟨made, planned, -, holds⟩ := holds_of_compile h
  obtain ⟨specifier, entry, -, resolved, rfl⟩ := plan_eq_ok_iff.1 planned
  have first := resolve_resolved resolved
  intro asset member
  cases mode : settings.mode with
  | single => exact absurd mode several
  | multi =>
    simp only [Compilation.Holds, mode] at holds
    obtain ⟨graph, reached, assets, -⟩ := holds
    rw [assets] at member
    obtain ⟨node, inside, rfl⟩ := List.mem_map.1 member
    have path := ((spans_of_reach reached).reached node inside).1
    exact resolved_componentPath (reachable_resolved first path) rfl
  | mirror =>
    have inside := List.mem_map_of_mem (f := Asset.path) member
    have files : componentFiles tree (planFor settings package base entry).resolver.root
        (planFor settings package base entry).resolver.extension
          = componentFiles tree settings.modulesPath settings.extension :=
      componentFiles_withoutDots tree settings.modulesPath settings.extension
    rw [(holds.listed mode).1, files] at inside
    obtain ⟨file, found, same⟩ := List.mem_map.1 inside
    have below := mem_componentFiles.1 found
    have spelled : settings.modulesPath.spelling ≠ [] := by
      obtain ⟨key, -, -, located, -⟩ := below
      exact FileTree.spelled_of_locate located
    obtain ⟨key, located, directory⟩ := resolved_directory first spelled
    exact same ▸ listed_componentPath named located directory below

theorem toldPaths_nodup_iff (named : tree.ProperlyNamed)
    (planned : plan tree settings package base = .ok made)
    (holds : compilation.Holds tree settings made) :
    (compilation.toldPaths made).Nodup ↔ (settings.mode = .mirror →
      ∀ relative ≠ made.entry.relative,
        ShownOnce tree settings.modulesPath settings.extension relative) := by
  have others : (compilation.toldPaths made).Nodup ↔
      ((compilation.assets.map Asset.path).filter (· ≠ made.entry.relative)).Nodup := by
    rw [Compilation.toldPaths, List.nodup_cons]
    exact and_iff_right (by simp)
  rw [others]
  by_cases mode : settings.mode = .mirror
  · obtain ⟨specifier, entry, -, -, rfl⟩ := plan_eq_ok_iff.1 planned
    have once := relatives_nodup_iff named settings.modulesPath
      (withoutDots settings.extension) (· ≠ entry.relative)
    simp only [decide_eq_true_eq, shownOnce_withoutDots] at once
    rw [(holds.listed mode).1]
    exact once.trans ⟨fun shown _ => shown, fun shown => shown mode⟩
  · have apart := paths_apart (holds.parts_nodup_of_other (plan_follows planned) mode)
    exact iff_of_true (apart.filter _) fun mirror => absurd mirror mode

theorem nodup_map_iff {α β : Type} {l : List α} {f : α → β} :
    (l.map f).Nodup ↔ l.Nodup ∧ ∀ a ∈ l, ∀ b ∈ l, f a = f b → a = b := by
  constructor
  · intro apart
    exact ⟨apart.of_map, (List.nodup_map_iff_inj_on apart.of_map).1 apart⟩
  · rintro ⟨apart, alike⟩
    exact (List.nodup_map_iff_inj_on apart).2 alike

/-- Two paths with the extension whose stems differ, and not any more once they are
    capitalized. -/
def SharesCapital (extension a b : Text) : Prop :=
  ∃ s t, a = s ++ '.' :: withoutDots extension ∧ b = t ++ '.' :: withoutDots extension ∧
    s ≠ t ∧ capitalized s = capitalized t

theorem publicName_apart_iff {release : Release} {a b : Text}
    (spelled : withoutDots release.extension = withoutDots extension)
    (first : ComponentPath extension a) (second : ComponentPath extension b) :
    (publicName release a = publicName release b → a = b) ↔
      (release.mode = .mirror → ¬ SharesCapital extension a b) := by
  obtain ⟨s, splitA⟩ := first.stem
  obtain ⟨t, splitB⟩ := second.stem
  rw [publicName_stem (spelled ▸ splitA), publicName_stem (spelled ▸ splitB)]
  by_cases mirror : release.mode = .mirror
  · rw [if_pos mirror, if_pos mirror, List.append_cancel_left_eq]
    constructor
    · rintro apart - ⟨u, v, cutA, cutB, differ, same⟩
      obtain rfl := List.append_cancel_right (splitA.symm.trans cutA)
      obtain rfl := List.append_cancel_right (splitB.symm.trans cutB)
      have whole := apart same
      rw [cutA, cutB] at whole
      exact differ (List.append_cancel_right whole)
    · intro free same
      by_contra differ
      refine free mirror ⟨s, t, splitA, splitB, ?_, same⟩
      rintro rfl
      exact differ (splitA.trans splitB.symm)
  · rw [if_neg mirror, if_neg mirror]
    refine iff_of_true (fun same => ?_) fun is => absurd is mirror
    obtain rfl : s = t := List.cons_injective (List.append_cancel_left same)
    rw [splitA, splitB]

/-- The manifest of assets that are compiled one by one tells of two of them under one address
    only in mirror mode, and then exactly if a path besides that of the entry is the relative path
    of two files. It names two of them alike only for this reason, or because the stems of their
    paths differ but have the same capital form. -/
theorem advertised_apart_iff (named : tree.ProperlyNamed) (several : settings.mode ≠ .single)
    (h : compile tree settings package base = .ok compilation) :
    ∃ made, plan tree settings package base = .ok made ∧
      ((compilation.manifest.items.map ManifestItem.url).Nodup ↔
        (settings.mode = .mirror → ∀ relative ≠ made.entry.relative,
          ShownOnce tree settings.modulesPath settings.extension relative)) ∧
      ((compilation.manifest.items.map ManifestItem.name).Nodup ↔
        (settings.mode = .mirror →
          (∀ relative ≠ made.entry.relative,
            ShownOnce tree settings.modulesPath settings.extension relative) ∧
          ∀ a ∈ compilation.assets, ∀ b ∈ compilation.assets,
            ¬ SharesCapital settings.extension a.path b.path)) := by
  have paths := compiled_componentPath named several h
  obtain ⟨made, planned, follows, holds⟩ := holds_of_compile h
  have told := holds.told several
  have component : ∀ path ∈ compilation.toldPaths made, ComponentPath settings.extension path := by
    intro path inside
    obtain ⟨asset, member, rfl⟩ := List.mem_map.1 ((mem_toldPaths told).1 inside)
    exact paths asset member
  have spelled : withoutDots made.release.extension = withoutDots settings.extension := by
    obtain ⟨specifier, entry, -, -, rfl⟩ := plan_eq_ok_iff.1 planned
    exact withoutDots_withoutDots _
  obtain ⟨urls, names⟩ := items_of_told told
  have once := toldPaths_nodup_iff named planned holds
  refine ⟨made, planned, ?_, ?_⟩
  · obtain ⟨front, ends⟩ := joinedUrl_eq made.base made.release.publicUrl
    rw [urls, nodup_map_iff, ← once]
    refine and_iff_left fun a first b second same => ?_
    rw [ends _ (component a first).bare, ends _ (component b second).bare] at same
    exact List.append_cancel_left same
  · have apart : (∀ a ∈ compilation.toldPaths made, ∀ b ∈ compilation.toldPaths made,
          publicName made.release a = publicName made.release b → a = b) ↔
        (settings.mode = .mirror → ∀ a ∈ compilation.assets, ∀ b ∈ compilation.assets,
          ¬ SharesCapital settings.extension a.path b.path) := by
      simp only [mem_toldPaths told, List.forall_mem_map, ← follows.mode]
      constructor
      · intro distinct mirror a first b second
        exact (publicName_apart_iff spelled (paths a first) (paths b second)).1
          (distinct a first b second) mirror
      · intro shares a first b second
        exact (publicName_apart_iff spelled (paths a first) (paths b second)).2
          fun mirror => shares mirror a first b second
    rw [names, nodup_map_iff, once, apart, imp_and]

theorem two_files_apart :
    twoFilesTree.ProperlyNamed ∧ twoFilesSettings.mode ≠ .single ∧
      compile twoFilesTree twoFilesSettings {} twoFilesBase = .ok twoFilesCompilation ∧
      (twoFilesCompilation.manifest.items.map ManifestItem.url).Nodup ∧
      (twoFilesCompilation.manifest.items.map ManifestItem.name).Nodup ∧
      ∀ a ∈ twoFilesCompilation.assets, ∀ b ∈ twoFilesCompilation.assets,
        ¬ SharesCapital "gjs" a.path b.path := by
  have named : twoFilesTree.ProperlyNamed := by decide +kernel
  have written : twoFilesTree.NamedInText := by decide +kernel
  have several : twoFilesSettings.mode ≠ .single := by decide
  obtain ⟨made, -, urls, names⟩ := advertised_apart_iff named several two_files_compiled
  have apart : (twoFilesCompilation.manifest.items.map ManifestItem.name).Nodup := by
    decide +kernel
  exact ⟨named, several, two_files_compiled,
    urls.2 fun _ relative _ => shownOnce_of_namedInText written named relative, apart,
    (names.1 apart rfl).2⟩

/-! Two component files whose names differ in the case of their first letters. -/

def capitalsTree : FileTree :=
  (FileTree.atHome []).put ["app"] .directory
    |>.put ["app", "components"] .directory
    |>.put ["app", "components", "button.gjs"] (.file (.text "export default 1;"))
    |>.put ["app", "components", "Button.gjs"] (.file (.text "export default 2;"))

def capitalsSettings : Settings := { entryPoint := some "button", mode := .mirror }

def capitalsBase : Text := "http://localhost:4205"

def capitalsPlan : Plan :=
  planFor capitalsSettings {} capitalsBase ⟨⟨"./app/components/button.gjs"⟩, "button.gjs"⟩

def capitalsFound : List Location :=
  [⟨⟨"./app/components/Button.gjs"⟩, "Button.gjs"⟩,
    ⟨⟨"./app/components/button.gjs"⟩, "button.gjs"⟩]

def capitalsCompilation : Compilation where
  manifest :=
    { dependencies := some [⟨"./Button",
        "http://localhost:4205/assets/extension-files/Button.gjs", "0.0.0", extensionKind⟩]
      main := ⟨"./Button", "http://localhost:4205/assets/extension-files/button.gjs", "0.0.0",
        extensionKind⟩ }
  assets := [⟨"Button.gjs", "export default 2;"⟩, ⟨"button.gjs", "export default 1;"⟩]
  warnings := []
  modules := ["Button.gjs", "button.gjs"]

theorem capitals_found :
    componentFiles capitalsTree capitalsSettings.modulesPath "gjs" = capitalsFound := by
  have located : capitalsTree.locate capitalsSettings.modulesPath
      = .ok (["app", "components"] : Key) := by decide +kernel
  have below : capitalsTree.filesBelow (["app", "components"] : Key)
      = [((["Button.gjs"] : Key), .text "export default 2;"),
        ((["button.gjs"] : Key), .text "export default 1;")] :=
    List.mergeSort_of_pairwise (by decide +kernel)
  rw [componentFiles, listFiles, located]
  dsimp only
  rw [below]
  exact List.mergeSort_of_pairwise (by decide +kernel)

theorem capitals_named_alike :
    compile capitalsTree capitalsSettings {} capitalsBase = .ok capitalsCompilation ∧
      ¬ (capitalsCompilation.manifest.items.map ManifestItem.name).Nodup := by
  refine ⟨?_, by decide +kernel⟩
  have planned : plan capitalsTree capitalsSettings {} capitalsBase = .ok capitalsPlan := by
    decide +kernel
  have found : componentFiles capitalsTree capitalsPlan.resolver.root
      capitalsPlan.resolver.extension = capitalsFound := capitals_found
  rw [compile_of_plan rfl planned, compileListed, found]
  decide +kernel

end ComponentBundle.Bundle
