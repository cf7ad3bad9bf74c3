import ComponentBundle.Proofs.WrittenFiles

/-!
Writing the same assets a second time. All directories are there by then, so each file is
only replaced by itself, unless the file beside it, which is written first, has become a
directory.
-/
namespace ComponentBundle.Bundle
open ComponentBundle.Text ComponentBundle.Files

variable {tree now after last : FileTree} {output target : FilePath} {content : Content}
  {assets : List Asset}

theorem ready_kept (ready : Ready tree target) (keeps : tree.Keeps now)
    (beside : now.node? (tree.destinationOf (temporary target)) ≠ some .directory)
    (free : now.node? (tree.destinationOf target) ≠ some .directory) : Ready now target :=
  ⟨fun parent found => (ready.parent parent found).imp_right keeps.isDirectory,
    ready.temporary.kept keeps beside, ready.target.kept keeps free⟩

theorem file?_eq_some_iff {tree : FileTree} {key : Key} :
    tree.file? key = some content ↔ tree.node? key = some (.file content) := by
  unfold FileTree.file?
  split <;> simp_all

theorem node?_eq_of_files (forth : tree.Keeps now) (back : now.Keeps tree)
    (files : ∀ key, now.file? key = tree.file? key) (key : Key) :
    now.node? key = tree.node? key := by
  refine Option.ext fun node => ?_
  cases node with
  | directory => exact ⟨back.directories key, forth.directories key⟩
  | file content => rw [← file?_eq_some_iff, files, file?_eq_some_iff]

theorem keeps_of_replaced (ready : Ready tree target) : (replaced tree target content).Keeps tree := by
  refine ⟨rfl, fun key found => ?_⟩
  rw [node?_replaced ready] at found
  split at found
  · simp at found
  · split at found
    · simp at found
    · exact found

theorem writeAll_directory (h : writeAll (directorySink output) assets tree = (.ok (), after))
    {key : Key} (file : tree.node? key = some (.file content))
    (directory : after.node? key = some .directory) :
    ∃ asset ∈ assets, key = tree.destinationOf (temporary (asset.target output)) := by
  induction assets generalizing tree content with
  | nil =>
    obtain rfl := (Prod.mk.inj h).2
    simp [file] at directory
  | cons asset more ih =>
    obtain ⟨made, grown, ready, h⟩ := writeAll_cons_eq_ok h
    have kept : made.node? key = some (.file content) := by
      rcases grown.nodes key with same | ⟨gone, -⟩
      · rw [same, file]
      · simp [file] at gone
    by_cases beside : key = tree.destinationOf (temporary (asset.target output))
    · exact ⟨asset, List.mem_cons_self, beside⟩
    · have apart : key ≠ made.destinationOf (temporary (asset.target output)) := by
        rwa [FileTree.destinationOf_congr grown.home]
      have later : ∃ content, (replaced made (asset.target output)
          (.text asset.contents)).node? key = some (.file content) := by
        rw [node?_replaced ready, if_neg apart]
        split
        · exact ⟨_, rfl⟩
        · exact ⟨content, kept⟩
      obtain ⟨content, later⟩ := later
      obtain ⟨other, inside, same⟩ := ih h later
      refine ⟨other, List.mem_cons_of_mem _ inside, ?_⟩
      rw [same, FileTree.destinationOf_congr (keeps_replaced ready).home,
        FileTree.destinationOf_congr grown.home]

theorem writeAll_ready (h : writeAll (directorySink output) assets tree = (.ok (), after))
    (free : ∀ asset ∈ assets,
      after.node? (after.destinationOf (temporary (asset.target output))) ≠ some .directory) :
    ∀ asset ∈ assets, Ready after (asset.target output) := by
  induction assets generalizing tree with
  | nil => simp
  | cons asset more ih =>
    obtain ⟨made, grown, ready, h⟩ := writeAll_cons_eq_ok h
    obtain ⟨first, rest⟩ := List.forall_mem_cons.1 free
    have keeps : made.Keeps after := (keeps_replaced ready).trans (writeAll_eq_ok h).1
    refine List.forall_mem_cons.2 ⟨ready_kept ready keeps ?_ ?_, ih h rest⟩
    · rwa [FileTree.destinationOf_congr keeps.home] at first
    · intro directory
      have file : (replaced made (asset.target output) (.text asset.contents)).node?
          (made.destinationOf (asset.target output)) = some (.file (.text asset.contents)) := by
        rw [node?_replaced ready, if_pos rfl]
      obtain ⟨other, inside, same⟩ := writeAll_directory h file directory
      refine rest other inside ?_
      rw [FileTree.destinationOf_congr (writeAll_eq_ok h).1.home, ← same]
      exact directory

theorem writeAll_of_ready (ready : ∀ asset ∈ assets, Ready tree (asset.target output)) :
    ∃ last, writeAll (directorySink output) assets tree = (.ok (), last) ∧ last.Keeps tree := by
  induction assets generalizing tree with
  | nil => exact ⟨tree, rfl, .rfl⟩
  | cons asset more ih =>
    obtain ⟨first, rest⟩ := List.forall_mem_cons.1 ready
    have put : directorySink output asset tree
        = (.ok (), replaced tree (asset.target output) (.text asset.contents)) :=
      replaceFile_of_ready first
    have keeps : tree.Keeps (replaced tree (asset.target output) (.text asset.contents)) :=
      keeps_replaced first
    have back : (replaced tree (asset.target output) (.text asset.contents)).Keeps tree :=
      keeps_of_replaced first
    have still : ∀ other ∈ more, Ready
        (replaced tree (asset.target output) (.text asset.contents)) (other.target output) := by
      intro other inside
      have later := rest other inside
      exact ready_kept later keeps (fun found => later.temporary.free (back.directories _ found))
        fun found => later.target.free (back.directories _ found)
    obtain ⟨last, written, whole⟩ := ih still
    refine ⟨last, ?_, whole.trans back⟩
    rw [writeAll, put]
    exact written

theorem writeAll_temporary (h : writeAll (directorySink output) assets tree = (.ok (), after)) :
    ∀ asset ∈ assets,
      tree.node? (tree.destinationOf (temporary (asset.target output))) ≠ some .directory := by
  induction assets generalizing tree with
  | nil => simp
  | cons asset more ih =>
    obtain ⟨made, grown, ready, h⟩ := writeAll_cons_eq_ok h
    refine List.forall_mem_cons.2 ⟨fun found => ?_, fun other inside found => ?_⟩
    · have kept := grown.keeps.directories _ found
      rw [← FileTree.destinationOf_congr grown.home] at kept
      exact ready.temporary.free kept
    · have keeps : tree.Keeps (replaced made (asset.target output) (.text asset.contents)) :=
        grown.keeps.trans (keeps_replaced ready)
      have kept := keeps.directories _ found
      rw [← FileTree.destinationOf_congr keeps.home] at kept
      exact ih h other inside kept

/-- Assets that were written can be written again, and then leave all as it is, exactly if no
    directory stands where the file beside one of them is written. -/
theorem writeAll_again_iff (h : writeAll (directorySink output) assets tree = (.ok (), after)) :
    (∃ last, writeAll (directorySink output) assets after = (.ok (), last) ∧
        ∀ key, last.node? key = after.node? key) ↔
      ∀ asset ∈ assets,
        after.node? (after.destinationOf (temporary (asset.target output))) ≠ some .directory := by
  constructor
  · rintro ⟨last, again, -⟩
    exact writeAll_temporary again
  · intro free
    obtain ⟨last, again, back⟩ := writeAll_of_ready (writeAll_ready h free)
    obtain ⟨keeps, files⟩ := writeAll_eq_ok h
    obtain ⟨forth, rewritten⟩ := writeAll_eq_ok again
    refine ⟨last, again, node?_eq_of_files forth back fun key => ?_⟩
    rw [rewritten, files, ledgerOf_congr keeps.home, Ledger.settle_settle]

end ComponentBundle.Bundle
