import ComponentBundle.Proofs.FileReplacement

/-!
Which files there are when assets were written one after the other. Each asset has a word on
two keys, and for each key the last word counts.
-/
namespace ComponentBundle.Files
open ComponentBundle.Text

def FileTree.file? (tree : FileTree) (key : Key) : Option Content :=
  match tree.node? key with
  | some (.file content) => some content
  | _ => none

theorem FileTree.Grown.file? {tree other : FileTree} (grown : tree.Grown other) (key : Key) :
    other.file? key = tree.file? key := by
  rcases grown.nodes key with same | ⟨free, made⟩
  · simp [FileTree.file?, same]
  · simp [FileTree.file?, free, made]

end ComponentBundle.Files

namespace ComponentBundle.Bundle
open ComponentBundle.Text ComponentBundle.Files

variable {tree other after : FileTree} {problem : Problem}

/-- What becomes of the files at some keys; of several entries of a key the last one counts. -/
abbrev Ledger := List (Key × Option Content)

def Ledger.last? (ledger : Ledger) (key : Key) : Option (Option Content) :=
  ledger.reverse.lookup key

/-- The file at a key, if the ledger is carried out where some file, or none, was before. -/
def Ledger.settle (ledger : Ledger) (key : Key) (old : Option Content) : Option Content :=
  (ledger.last? key).getD old

theorem Ledger.settle_append (first second : Ledger) (key : Key) (old : Option Content) :
    Ledger.settle (first ++ second) key old = second.settle key (first.settle key old) := by
  simp only [settle, last?, List.reverse_append, List.lookup_append]
  cases second.reverse.lookup key <;> rfl

theorem Ledger.settle_settle (ledger : Ledger) (key : Key) (old : Option Content) :
    ledger.settle key (ledger.settle key old) = ledger.settle key old := by
  simp only [settle]
  cases ledger.last? key <;> rfl

theorem Ledger.settle_eq_self_iff (ledger : Ledger) (key : Key) (old : Option Content) :
    ledger.settle key old = old ↔ ∀ content, ledger.last? key = some content → content = old := by
  simp only [settle]
  cases ledger.last? key <;> simp

def Asset.target (output : FilePath) (asset : Asset) : FilePath := output.joined ⟨asset.path⟩

def Asset.place (tree : FileTree) (output : FilePath) (asset : Asset) : Key :=
  tree.destinationOf (asset.target output)

/-- The key where the asset is written before it is moved to its place. -/
def Asset.beside (tree : FileTree) (output : FilePath) (asset : Asset) : Key :=
  tree.destinationOf (temporary (asset.target output))

/-- What an asset makes of files: the one that is written beside it goes again. -/
def Asset.entries (tree : FileTree) (output : FilePath) (asset : Asset) : Ledger :=
  [(tree.destinationOf (temporary (asset.target output)), none),
    (tree.destinationOf (asset.target output), some (.text asset.contents))]

theorem Asset.entries_congr (home : other.home = tree.home) (output : FilePath) (asset : Asset) :
    asset.entries other output = asset.entries tree output := by
  simp only [Asset.entries, FileTree.destinationOf_congr home]

def ledgerOf (tree : FileTree) (output : FilePath) (assets : List Asset) : Ledger :=
  assets.flatMap (Asset.entries tree output)

theorem ledgerOf_cons (tree : FileTree) (output : FilePath) (asset : Asset)
    (assets : List Asset) :
    ledgerOf tree output (asset :: assets)
      = asset.entries tree output ++ ledgerOf tree output assets := rfl

theorem ledgerOf_congr (home : other.home = tree.home) (output : FilePath) (assets : List Asset) :
    ledgerOf other output assets = ledgerOf tree output assets := by
  simp only [ledgerOf, funext (Asset.entries_congr home output)]

variable {output : FilePath} {asset : Asset} {assets : List Asset}

theorem Asset.settle_entries (asset : Asset) (tree : FileTree) (output : FilePath) (key : Key)
    (old : Option Content) :
    (asset.entries tree output).settle key old =
      if key = asset.place tree output then some (.text asset.contents)
      else if key = asset.beside tree output then none
      else old := by
  have last : (asset.entries tree output).last? key
      = if key = asset.place tree output then some (some (.text asset.contents))
        else if key = asset.beside tree output then some none
        else none := by
    rw [Ledger.last?, Asset.entries, List.reverse_cons, List.reverse_singleton,
      List.singleton_append, FileTree.lookup_cons_eq, FileTree.lookup_cons_eq]
    rfl
  rw [Ledger.settle, last]
  split
  · rfl
  · split <;> rfl

theorem file?_replaced (ready : Ready tree (asset.target output)) (key : Key) :
    (replaced tree (asset.target output) (.text asset.contents)).file? key
      = (asset.entries tree output).settle key (tree.file? key) := by
  rw [FileTree.file?, node?_replaced ready, Asset.settle_entries, Asset.place, Asset.beside]
  by_cases put : key = tree.destinationOf (asset.target output)
  · rw [if_pos put, if_pos put]
  · by_cases gone : key = tree.destinationOf (temporary (asset.target output))
    · rw [if_neg put, if_pos gone, if_neg put, if_pos gone]
    · rw [if_neg put, if_neg gone, if_neg put, if_neg gone]
      rfl

theorem directorySink_eq_ok (h : directorySink output asset tree = (.ok (), after)) :
    ∃ made, tree.Grown made ∧ Ready made (asset.target output) ∧
      after = replaced made (asset.target output) (.text asset.contents) :=
  ⟨_, prepared_grown _ _, replaceFile_eq_ok h⟩

theorem directorySink_eq_error (h : directorySink output asset tree = (.error problem, after)) :
    (∀ key, after.file? key = tree.file? key) ∨
      (∃ fault, problem = .file (asset.target output).shown fault) ∧
        ∀ key, after.file? key = Ledger.settle
          [(tree.destinationOf (temporary (asset.target output)), none)] key (tree.file? key) := by
  have refused : replaceFile (asset.target output) (.text asset.contents) tree
      = (.error problem, after) := h
  rcases replaceFile_eq_error refused with grown | ⟨about, made, grown, nodes⟩
  · exact .inl grown.file?
  · refine .inr ⟨about, fun key => ?_⟩
    have last : Ledger.last? [(tree.destinationOf (temporary (asset.target output)), none)] key
        = if key = tree.destinationOf (temporary (asset.target output)) then some none else none :=
      FileTree.lookup_cons_eq ..
    rw [FileTree.file?, nodes, ← grown.file?, Ledger.settle, last]
    by_cases gone : key = tree.destinationOf (temporary (asset.target output))
    · rw [if_pos gone, if_pos gone]
      rfl
    · rw [if_neg gone, if_neg gone]
      rfl

theorem writeAll_cons_eq_ok
    (h : writeAll (directorySink output) (asset :: assets) tree = (.ok (), after)) :
    ∃ made, tree.Grown made ∧ Ready made (asset.target output) ∧
      writeAll (directorySink output) assets
        (replaced made (asset.target output) (.text asset.contents)) = (.ok (), after) := by
  rw [writeAll] at h
  split at h
  · rename_i next put
    obtain ⟨made, grown, ready, rfl⟩ := directorySink_eq_ok put
    exact ⟨made, grown, ready, h⟩
  · simp at h

/-- Writing keeps all directories, and the files are those that the ledger says. -/
theorem writeAll_eq_ok (h : writeAll (directorySink output) assets tree = (.ok (), after)) :
    tree.Keeps after ∧
      ∀ key, after.file? key = (ledgerOf tree output assets).settle key (tree.file? key) := by
  induction assets generalizing tree with
  | nil =>
    obtain rfl := (Prod.mk.inj h).2
    exact ⟨.rfl, fun key => rfl⟩
  | cons asset more ih =>
    obtain ⟨made, grown, ready, h⟩ := writeAll_cons_eq_ok h
    obtain ⟨keeps, files⟩ := ih h
    have first : tree.Keeps (replaced made (asset.target output) (.text asset.contents)) :=
      grown.keeps.trans (keeps_replaced ready)
    refine ⟨first.trans keeps, fun key => ?_⟩
    rw [files, file?_replaced ready, grown.file?, ledgerOf_congr first.home, ledgerOf_cons,
      Ledger.settle_append, Asset.entries_congr grown.home]

theorem writeAll_eq_error {σ : Type} {sink : Sink σ} {state last : σ}
    (h : writeAll sink assets state = (.error problem, last)) :
    ∃ taken refused left middle, assets = taken ++ refused :: left ∧
      writeAll sink taken state = (.ok (), middle) ∧ sink refused middle = (.error problem, last) := by
  induction assets generalizing state with
  | nil => simp [writeAll] at h
  | cons asset more ih =>
    rw [writeAll] at h
    split at h
    · rename_i next put
      obtain ⟨taken, refused, left, middle, rfl, written, stop⟩ := ih h
      exact ⟨asset :: taken, refused, left, middle, rfl, by simp [writeAll, put, written], stop⟩
    · rename_i fault next put
      exact ⟨[], asset, more, state, rfl, rfl, put.trans h⟩

end ComponentBundle.Bundle
