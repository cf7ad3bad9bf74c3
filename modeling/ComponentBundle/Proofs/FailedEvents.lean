import ComponentBundle.Proofs.SessionRuns
import ComponentBundle.Proofs.WrittenFiles

/-!
What an event that fails leaves of the output before it. Nothing is written if the files do
not compile. If a file is refused, those that were taken before it stay written.
-/
namespace ComponentBundle.Bundle
open ComponentBundle.Text ComponentBundle.Files ComponentBundle.Project

/-- What a failed event makes of files. A file that cannot be moved over its target has been
    written beside it, and is taken away there. -/
inductive LeftBehind (output : FilePath) (event : Event) (session : Session) (tree : FileTree)
    (problem : Problem) : Ledger → Prop where
  | uncompiled (failed : session.compiled? event tree = .error problem) :
      LeftBehind output event session tree problem []
  | unwritten {compilation : Compilation} {taken left : List Asset} {refused : Asset}
      (made : session.compiled? event tree = .ok compilation)
      (split : compilation.files = taken ++ refused :: left)
      (written : (writeAll (directorySink output) taken tree).1 = .ok ()) :
      LeftBehind output event session tree problem (ledgerOf tree output taken)
  | unmoved {compilation : Compilation} {taken left : List Asset} {refused : Asset} {fault : Fault}
      (made : session.compiled? event tree = .ok compilation)
      (split : compilation.files = taken ++ refused :: left)
      (written : (writeAll (directorySink output) taken tree).1 = .ok ())
      (about : problem = .file (refused.target output).shown fault) :
      LeftBehind output event session tree problem (ledgerOf tree output taken
        ++ [(tree.destinationOf (temporary (refused.target output)), none)])

variable {output : FilePath} {event : Event} {session later : Session} {tree after : FileTree}
  {problem : Problem}

theorem handle_eq_failed {σ : Type} {host : Host σ} {state last : σ}
    (h : handle host event session state = (.failed problem, later, last)) :
    session.compiled? event (host.tree state) = .error problem ∧ last = state ∨
      ∃ compilation, session.compiled? event (host.tree state) = .ok compilation ∧
        publish host.sink compilation state = (.error problem, last) := by
  have met := handled host event session state
  rw [h] at met
  cases met with
  | uncompiled near failed => exact .inl ⟨failed, rfl⟩
  | refused near made put => exact .inr ⟨_, made, put⟩

theorem publish_eq_error {compilation : Compilation}
    (made : session.compiled? event tree = .ok compilation)
    (h : publish (directorySink output) compilation tree = (.error problem, after)) :
    ∃ ledger, LeftBehind output event session tree problem ledger ∧
      ∀ key, after.file? key = ledger.settle key (tree.file? key) := by
  obtain ⟨taken, refused, left, middle, split, written, stop⟩ := writeAll_eq_error h
  obtain ⟨keeps, files⟩ := writeAll_eq_ok written
  have done : (writeAll (directorySink output) taken tree).1 = .ok () := by rw [written]
  rcases directorySink_eq_error stop with same | ⟨⟨fault, about⟩, gone⟩
  · exact ⟨_, .unwritten made split done, fun key => (same key).trans (files key)⟩
  · refine ⟨_, .unmoved made split done about, fun key => ?_⟩
    rw [gone, files, FileTree.destinationOf_congr keeps.home, ← Ledger.settle_append]

/-- After an event that failed every file is as the assets taken before the failure left it,
    and the tree is the same if the files did not compile. So the output is as it was before
    exactly if no word that was had on a file in it differs from what was there. -/
theorem failed_event_keeps_output_iff
    (h : handle (directoryHost output) event session tree = (.failed problem, later, after)) :
    ((∃ fault, session.compiled? event tree = .error fault) → after = tree) ∧
      ∃ ledger, LeftBehind output event session tree problem ledger ∧
        (∀ key, after.file? key = ledger.settle key (tree.file? key)) ∧
        ((∀ key, tree.destinationOf output <+: key → after.file? key = tree.file? key) ↔
          ∀ key, tree.destinationOf output <+: key →
            ∀ content, ledger.last? key = some content → content = tree.file? key) := by
  have exact_iff : ∀ ledger : Ledger,
      (∀ key, after.file? key = ledger.settle key (tree.file? key)) →
      ((∀ key, tree.destinationOf output <+: key → after.file? key = tree.file? key) ↔
        ∀ key, tree.destinationOf output <+: key →
          ∀ content, ledger.last? key = some content → content = tree.file? key) := by
    intro ledger files
    refine forall₂_congr fun key below => ?_
    rw [files, Ledger.settle_eq_self_iff]
  rcases handle_eq_failed h with ⟨failed, rfl⟩ | ⟨compilation, made, put⟩
  · exact ⟨fun _ => rfl, [], .uncompiled failed, fun key => rfl, exact_iff [] fun key => rfl⟩
  · obtain ⟨ledger, left, files⟩ := publish_eq_error made put
    refine ⟨fun ⟨fault, failed⟩ => ?_, ledger, left, files, exact_iff ledger files⟩
    exact absurd (made.symm.trans failed) (by simp)

/-! A directory stands where the manifest should go, beside an older bundle. -/

def blockedSettings : Settings := { entryPoint := some "main", mode := .mirror }

def blockedOutput : Key := ["public", "assets", "extension-files"]

def blockedBundle : Key := ["public", "assets", "extension-files", "main.gjs"]

def blockedTree : FileTree :=
  (FileTree.atHome []).put ["app"] .directory
    |>.put ["app", "components"] .directory
    |>.put ["app", "components", "main.gjs"] (.file (.text "export default 2;"))
    |>.put ["public"] .directory
    |>.put ["public", "assets"] .directory
    |>.put blockedOutput .directory
    |>.put blockedBundle (.file (.text "export default 1;"))
    |>.put ["public", "assets", "extension-files", "manifest.json"] .directory

def blockedProblem : Problem :=
  .file "./public/assets/extension-files/manifest.json" .isADirectory

def blockedStart : Outcome × Session × FileTree :=
  handle (directoryHost blockedSettings.outputPath) .started (.of blockedSettings) blockedTree

theorem older_bundle_replaced :
    blockedStart.1 = .failed blockedProblem ∧
      blockedTree.destinationOf blockedSettings.outputPath <+: blockedBundle ∧
      blockedTree.file? blockedBundle = some (.text "export default 1;") ∧
      blockedStart.2.2.file? blockedBundle = some (.text "export default 2;") := by
  decide +kernel

theorem blocked_manifest_accounts :
    handle (directoryHost blockedSettings.outputPath) .started (.of blockedSettings) blockedTree
        = (.failed blockedProblem, blockedStart.2.1, blockedStart.2.2) ∧
      ∃ ledger, LeftBehind blockedSettings.outputPath .started (.of blockedSettings) blockedTree
          blockedProblem ledger ∧
        (∀ key, blockedStart.2.2.file? key = ledger.settle key (blockedTree.file? key)) ∧
        ((∀ key, blockedTree.destinationOf blockedSettings.outputPath <+: key →
            blockedStart.2.2.file? key = blockedTree.file? key) ↔
          ∀ key, blockedTree.destinationOf blockedSettings.outputPath <+: key →
            ∀ content, ledger.last? key = some content → content = blockedTree.file? key) := by
  have failed : handle (directoryHost blockedSettings.outputPath) .started (.of blockedSettings)
      blockedTree = (.failed blockedProblem, blockedStart.2.1, blockedStart.2.2) := by
    refine Prod.ext ?_ rfl
    decide +kernel
  exact ⟨failed, (failed_event_keeps_output_iff failed).2⟩

end ComponentBundle.Bundle
