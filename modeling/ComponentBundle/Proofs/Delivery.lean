import ComponentBundle.Proofs.Rebuilding

/-!
What is in an output directory once a compilation was written without an error. An asset can
be lost there: one that is written later can go to the same place, or be written beside itself
at that place first. Files of others are lost in the same way.
-/
namespace ComponentBundle.Bundle
open ComponentBundle.Text ComponentBundle.Files ComponentBundle.Project

variable {tree after : FileTree} {output : FilePath} {asset : Asset} {assets files : List Asset}
  {key : Key} {compilation : Compilation}

theorem settle_of_unplaced (unplaced : ∀ asset ∈ assets, key ≠ asset.place tree output)
    (old : Option Content) :
    (ledgerOf tree output assets).settle key old
      = if ∃ asset ∈ assets, key = asset.beside tree output then none else old := by
  induction assets generalizing old with
  | nil => rfl
  | cons asset more ih =>
    obtain ⟨first, rest⟩ := List.forall_mem_cons.1 unplaced
    rw [ledgerOf_cons, Ledger.settle_append, ih rest, Asset.settle_entries, if_neg first]
    by_cases gone : key = asset.beside tree output <;> simp [gone]

theorem settle_of_placed {contents : Text} {old : Option Content}
    (agree : ∀ asset ∈ assets, key = asset.place tree output → asset.contents = contents)
    (restored : ∀ front later behind, assets = front ++ later :: behind →
      key = later.beside tree output → ∃ other ∈ later :: behind, key = other.place tree output)
    (placed : old = some (.text contents) ∨ ∃ asset ∈ assets, key = asset.place tree output) :
    (ledgerOf tree output assets).settle key old = some (.text contents) := by
  induction assets generalizing old with
  | nil =>
    rcases placed with same | ⟨asset, none, -⟩
    · exact same
    · exact absurd none List.not_mem_nil
  | cons asset more ih =>
    obtain ⟨same, rest⟩ := List.forall_mem_cons.1 agree
    have later : ∀ front later behind, more = front ++ later :: behind →
        key = later.beside tree output →
          ∃ other ∈ later :: behind, key = other.place tree output := by
      rintro front later behind rfl
      exact restored (asset :: front) later behind rfl
    rw [ledgerOf_cons, Ledger.settle_append, Asset.settle_entries]
    refine ih rest later ?_
    by_cases put : key = asset.place tree output
    · left
      rw [if_pos put, same put]
    · have behind : (∃ other ∈ asset :: more, key = other.place tree output) →
          ∃ other ∈ more, key = other.place tree output := by
        simp [put]
      rw [if_neg put]
      by_cases gone : key = asset.beside tree output
      · exact .inr (behind (restored [] asset more rfl gone))
      · rw [if_neg gone]
        exact placed.imp_right behind

/-- What is wanted of an output directory: each file can be read there, no other file in it
    has changed, and none outside. -/
structure Delivered (output : FilePath) (files : List Asset) (tree after : FileTree) : Prop where
  readBack : ∀ asset ∈ files, after.readText (asset.target output) = .ok asset.contents
  outside : ∀ key, ¬ tree.destinationOf output <+: key → after.file? key = tree.file? key
  inside : ∀ key, tree.destinationOf output <+: key → after.file? key ≠ tree.file? key →
    ∃ asset ∈ files, key = asset.place tree output

/-- What it takes for files to be delivered, seen from where they go. -/
structure Undisturbed (tree : FileTree) (output : FilePath) (files : List Asset) : Prop where
  /-- Files that go to one place have one content. -/
  agree : ∀ asset ∈ files, ∀ other ∈ files,
    asset.place tree output = other.place tree output → asset.contents = other.contents
  /-- What is lost where a later file is written beside itself is put there again. -/
  restored : ∀ front later behind, files = front ++ later :: behind →
    ∀ asset ∈ files, asset.place tree output = later.beside tree output →
      ∃ other ∈ later :: behind, asset.place tree output = other.place tree output
  /-- What goes elsewhere than below the output directory is there already. -/
  inside : ∀ asset ∈ files, tree.destinationOf output <+: asset.place tree output ∨
    tree.file? (asset.place tree output) = some (.text asset.contents)
  /-- No file of another stands where one is written beside itself. -/
  free : ∀ asset ∈ files, tree.file? (asset.beside tree output) = none ∨
    ∃ other ∈ files, asset.beside tree output = other.place tree output

/-- The last word on where each file goes is its own, if files with one place agree and are
    put there again. -/
theorem settle_places_iff {old : Key → Option Content} :
    (∀ asset ∈ files, (ledgerOf tree output files).settle (asset.place tree output)
        (old (asset.place tree output)) = some (.text asset.contents)) ↔
      (∀ asset ∈ files, ∀ other ∈ files,
        asset.place tree output = other.place tree output → asset.contents = other.contents) ∧
      ∀ front later behind, files = front ++ later :: behind →
        ∀ asset ∈ files, asset.place tree output = later.beside tree output →
          ∃ other ∈ later :: behind, asset.place tree output = other.place tree output := by
  constructor
  · intro settled
    refine ⟨fun asset first other second same => ?_, ?_⟩
    · have there := settled asset first
      rw [same, settled other second] at there
      simpa using there.symm
    · intro front later behind split asset member same
      by_contra lost
      push Not at lost
      have there := settled asset member
      have written : ledgerOf tree output files
          = ledgerOf tree output front ++ ledgerOf tree output (later :: behind) := by
        rw [split, ledgerOf, ledgerOf, ledgerOf, List.flatMap_append]
      rw [written, Ledger.settle_append, settle_of_unplaced lost,
        if_pos ⟨later, List.mem_cons_self, same⟩] at there
      contradiction
  · rintro ⟨agree, restored⟩ asset member
    refine settle_of_placed (fun other inside same => (agree asset member other inside same).symm)
      (fun front later behind split gone => restored front later behind split asset member gone)
      (.inr ⟨asset, member, rfl⟩)

theorem writeAll_receives (h : writeAll (directorySink output) assets tree = (.ok (), after)) :
    ∀ asset ∈ assets, after.node? (asset.place tree output) ≠ some .directory →
      after.Receives (asset.target output) := by
  induction assets generalizing tree with
  | nil => simp
  | cons asset more ih =>
    obtain ⟨made, grown, ready, h⟩ := writeAll_cons_eq_ok h
    have keeps : made.Keeps after := (keeps_replaced ready).trans (writeAll_eq_ok h).1
    refine List.forall_mem_cons.2 ⟨fun free => ?_, fun other inside free => ?_⟩
    · refine ready.target.kept keeps ?_
      rwa [FileTree.destinationOf_congr grown.home]
    · refine ih h other inside ?_
      rwa [Asset.place, FileTree.destinationOf_congr (keeps_replaced ready).home,
        FileTree.destinationOf_congr grown.home]

theorem readText_target_iff
    (h : writeAll (directorySink output) assets tree = (.ok (), after)) (member : asset ∈ assets) :
    after.readText (asset.target output) = .ok asset.contents ↔
      after.file? (asset.place tree output) = some (.text asset.contents) := by
  have home := (writeAll_eq_ok h).1.home
  constructor
  · intro read
    obtain ⟨key, located, node⟩ := FileTree.find?_eq_ok (FileTree.readText_eq_ok read)
    obtain rfl : key = asset.place tree output :=
      (FileTree.locate_eq_ok located).trans (FileTree.destinationOf_congr home _)
    exact file?_eq_some_iff.2 node
  · intro found
    have node := file?_eq_some_iff.1 found
    have receives := writeAll_receives h asset member (by simp [node])
    have place : after.destinationOf (asset.target output) = asset.place tree output :=
      FileTree.destinationOf_congr home _
    have located := receives.locate (by simp [place, node])
    have there : after.find? (asset.target output) = .ok (.file (.text asset.contents)) := by
      simp [FileTree.find?, located, place, node, bind, Except.bind, pure, Except.pure]
    simp [FileTree.readText, there, bind, Except.bind, pure, Except.pure]

theorem directoriesTo_congr {tree now : FileTree} (home : now.home = tree.home)
    (target : FilePath) : directoriesTo now target = directoriesTo tree target := by
  simp only [directoriesTo, funext (FileTree.destinationOf_congr home)]

theorem writeAll_made (h : writeAll (directorySink output) assets tree = (.ok (), after))
    (found : after.node? key = some .directory) :
    tree.node? key = some .directory ∨
      ∃ asset ∈ assets, key ∈ directoriesTo tree (asset.target output) := by
  induction assets generalizing tree with
  | nil =>
    obtain rfl := (Prod.mk.inj h).2
    exact .inl found
  | cons asset more ih =>
    rw [writeAll] at h
    split at h
    · rename_i next put
      obtain ⟨ready, rfl⟩ := replaceFile_eq_ok put
      rcases ih h with old | ⟨other, inside, leads⟩
      · have before := (keeps_of_replaced ready).directories _ old
        exact (prepared_directory before).imp_right fun leads => ⟨asset, List.mem_cons_self, leads⟩
      · rw [directoriesTo_congr (keeps_replaced ready).home,
          directoriesTo_congr (prepared_grown tree _).home] at leads
        exact .inr ⟨other, List.mem_cons_of_mem _ inside, leads⟩
    · simp at h

theorem writeAll_touched (h : writeAll (directorySink output) assets tree = (.ok (), after))
    (changed : after.node? key ≠ tree.node? key) :
    ∃ asset ∈ assets, key = asset.place tree output ∨
      key = asset.beside tree output ∧ after.file? key = none ∨
      key ∈ directoriesTo tree (asset.target output) ∧ after.node? key = some .directory := by
  obtain ⟨keeps, settled⟩ := writeAll_eq_ok h
  by_cases directory : after.node? key = some .directory
  · rcases writeAll_made h directory with old | ⟨asset, member, leads⟩
    · exact absurd (directory.trans old.symm) changed
    · exact ⟨asset, member, .inr (.inr ⟨leads, directory⟩)⟩
  · by_cases placed : ∃ asset ∈ assets, key = asset.place tree output
    · obtain ⟨asset, member, same⟩ := placed
      exact ⟨asset, member, .inl same⟩
    · push Not at placed
      have file := (settled key).trans (settle_of_unplaced placed _)
      split at file
      · rename_i gone
        obtain ⟨asset, member, same⟩ := gone
        exact ⟨asset, member, .inr (.inl ⟨same, file⟩)⟩
      · refine absurd (Option.ext fun node => ?_) changed
        cases node with
        | directory => exact iff_of_false directory fun old => directory (keeps.directories _ old)
        | file content => rw [← file?_eq_some_iff, file, file?_eq_some_iff]

theorem delivered_of_undisturbed
    (h : writeAll (directorySink output) files tree = (.ok (), after))
    (undisturbed : Undisturbed tree output files) : Delivered output files tree after := by
  obtain ⟨-, settled⟩ := writeAll_eq_ok h
  have there : ∀ asset ∈ files,
      after.file? (asset.place tree output) = some (.text asset.contents) := by
    intro asset member
    rw [settled]
    exact settle_places_iff.2 ⟨undisturbed.agree, undisturbed.restored⟩ asset member
  have elsewhere : ∀ key, (∀ asset ∈ files, key ≠ asset.place tree output) →
      after.file? key = tree.file? key := by
    intro key unplaced
    rw [settled, settle_of_unplaced unplaced]
    split
    · rename_i gone
      obtain ⟨asset, member, same⟩ := gone
      rcases undisturbed.free asset member with free | ⟨other, inside, placed⟩
      · rw [same, free]
      · exact absurd (same.trans placed) (unplaced other inside)
    · rfl
  refine ⟨fun asset member => (readText_target_iff h member).2 (there asset member), ?_, ?_⟩
  · intro key outside
    by_cases placed : ∃ asset ∈ files, key = asset.place tree output
    · obtain ⟨asset, member, rfl⟩ := placed
      rw [there asset member, (undisturbed.inside asset member).resolve_left outside]
    · push Not at placed
      exact elsewhere key placed
  · intro key _ changed
    by_contra unplaced
    push Not at unplaced
    exact changed (elsewhere key unplaced)

theorem undisturbed_of_delivered
    (h : writeAll (directorySink output) files tree = (.ok (), after))
    (delivered : Delivered output files tree after) : Undisturbed tree output files := by
  obtain ⟨-, settled⟩ := writeAll_eq_ok h
  have there : ∀ asset ∈ files,
      after.file? (asset.place tree output) = some (.text asset.contents) :=
    fun asset member => (readText_target_iff h member).1 (delivered.readBack asset member)
  obtain ⟨agree, restored⟩ := settle_places_iff.1 fun asset member =>
    (settled _).symm.trans (there asset member)
  refine ⟨agree, restored, fun asset member => ?_, fun asset member => ?_⟩
  · by_cases below : tree.destinationOf output <+: asset.place tree output
    · exact .inl below
    · exact .inr ((delivered.outside _ below).symm.trans (there asset member))
  · by_cases placed : ∃ other ∈ files, asset.beside tree output = other.place tree output
    · exact .inr placed
    · left
      push Not at placed
      have gone := (settled _).trans (settle_of_unplaced placed _)
      rw [if_pos ⟨asset, member, rfl⟩] at gone
      by_contra present
      have changed : after.file? (asset.beside tree output)
          ≠ tree.file? (asset.beside tree output) := by
        rw [gone]
        exact Ne.symm present
      by_cases below : tree.destinationOf output <+: asset.beside tree output
      · obtain ⟨other, inside, same⟩ := delivered.inside _ below changed
        exact placed other inside same
      · exact changed (delivered.outside _ below)

theorem publish_manifest
    (h : publish (directorySink output) compilation tree = (.ok (), after)) :
    after.readText (output.joined ⟨manifestFile⟩) = .ok compilation.manifest.render := by
  have last : (⟨manifestFile, compilation.manifest.render⟩ : Asset) ∈ compilation.files := by
    simp [Compilation.files]
  refine (readText_target_iff h last).2 ?_
  have written : ledgerOf tree output compilation.files
      = ledgerOf tree output compilation.assets
        ++ Asset.entries tree output ⟨manifestFile, compilation.manifest.render⟩ := by
    simp [ledgerOf, Compilation.files]
  rw [(writeAll_eq_ok h).2, written, Ledger.settle_append, Asset.settle_entries, if_pos rfl]

/-- A compilation that was written without an error. The manifest is there, no directory is
    lost, and nothing is touched but the places of assets, those beside them and the
    directories that lead there. All assets can be read back and all other files are as they
    were exactly if the places allow for it: no asset is lost to a later one, none goes
    elsewhere than below the output directory, and no file of another stands beside one. -/
theorem delivered_iff (h : publish (directorySink output) compilation tree = (.ok (), after)) :
    after.readText (output.joined ⟨manifestFile⟩) = .ok compilation.manifest.render ∧
      tree.Keeps after ∧
      (∀ key, after.node? key ≠ tree.node? key →
        ∃ asset ∈ compilation.files, key = asset.place tree output ∨
          key = asset.beside tree output ∧ after.file? key = none ∨
          key ∈ directoriesTo tree (asset.target output) ∧
            after.node? key = some .directory) ∧
      (Delivered output compilation.files tree after ↔
        Undisturbed tree output compilation.files) :=
  ⟨publish_manifest h, (writeAll_eq_ok h).1, fun _ changed => writeAll_touched h changed,
    undisturbed_of_delivered h, delivered_of_undisturbed h⟩

def apartPublished : Except Problem Unit × FileTree :=
  publish (directorySink apartSettings.outputPath) apartCompilation apartTree

theorem apart_delivered :
    compile apartTree apartSettings {} apartSettings.initialUrl = .ok apartCompilation ∧
      publish (directorySink apartSettings.outputPath) apartCompilation apartTree
        = (.ok (), apartPublished.2) ∧
      apartPublished.2.readText (apartSettings.outputPath.joined ⟨manifestFile⟩)
        = .ok apartCompilation.manifest.render ∧
      Delivered apartSettings.outputPath apartCompilation.files apartTree apartPublished.2 := by
  have compiled : compile apartTree apartSettings {} apartSettings.initialUrl
      = .ok apartCompilation := by decide +kernel
  have published : publish (directorySink apartSettings.outputPath) apartCompilation apartTree
      = (.ok (), apartPublished.2) := by
    refine Prod.ext ?_ rfl
    decide +kernel
  have apart : ∀ asset ∈ apartCompilation.files, ∀ later ∈ apartCompilation.files,
      asset.place apartTree apartSettings.outputPath
        ≠ later.beside apartTree apartSettings.outputPath := by decide +kernel
  obtain ⟨told, -, -, delivered⟩ := delivered_iff published
  refine ⟨compiled, published, told, delivered.2 ⟨?_, ?_, ?_, ?_⟩⟩
  · decide +kernel
  · rintro front later behind split asset member same
    exact absurd same (apart asset member later (by simp [split]))
  · decide +kernel
  · decide +kernel

/-! A bundle that is named as the manifest is while that is written. -/

def misnamedSettings : Settings :=
  { entryPoint := some "main", bundleFileName := some "manifest.json.tmp" }

def misnamedPlan : Plan := planFor misnamedSettings {} misnamedSettings.initialUrl
  ⟨⟨"./app/components/main.gjs"⟩, "main.gjs"⟩

def misnamedGraph : ModuleGraph :=
  ⟨[⟨⟨misnamedPlan.entry, "export default 1;"⟩, ["app/components/main", "app/components/main.gjs"]⟩],
    0, []⟩

def misnamedCompilation : Compilation where
  manifest :=
    { dependencies := none
      main := ⟨"app/components/main",
        "http://localhost:4205/assets/extension-files/manifest.json.tmp", "0.0.0",
        extensionKind⟩ }
  assets := [⟨"manifest.json.tmp", "const Main = 1;\n\nexport default Main;\n"⟩]
  warnings := []
  modules := ["main.gjs"]

def misnamedPublished : Except Problem Unit × FileTree :=
  publish (directorySink misnamedSettings.outputPath) misnamedCompilation apartTree

theorem misnamed_compiled :
    compile apartTree misnamedSettings {} misnamedSettings.initialUrl
      = .ok misnamedCompilation := by
  have planned : plan apartTree misnamedSettings {} misnamedSettings.initialUrl
      = .ok misnamedPlan := by decide +kernel
  have reached : reach misnamedPlan.resolver apartTree misnamedPlan.entry = .ok misnamedGraph :=
    reach_of_reachWithin (n := 10) (by decide +kernel)
  refine bind_eq_ok.2 ⟨misnamedPlan, planned, ?_⟩
  change compileLinked apartTree misnamedSettings misnamedPlan = _
  rw [compileLinked, reached]
  decide +kernel

theorem misnamed_bundle_lost :
    compile apartTree misnamedSettings {} misnamedSettings.initialUrl = .ok misnamedCompilation ∧
      misnamedPublished.1 = .ok () ∧
      ∃ asset ∈ misnamedCompilation.assets,
        misnamedPublished.2.readText (asset.target misnamedSettings.outputPath)
          = .error .notFound :=
  ⟨misnamed_compiled, by decide +kernel, by decide +kernel⟩

end ComponentBundle.Bundle
