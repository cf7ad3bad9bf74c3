import ComponentBundle.Proofs.ComponentListing
import ComponentBundle.Proofs.TreeChanges

/-!
What a reading of a tree depends on. A path is followed by a look at the nodes on its way, so
it leads to the same node in any tree that has the same nodes there.
-/
namespace ComponentBundle.Files
open ComponentBundle.Text

def pieceFrom (here : Key) (piece : Name) : Key :=
  ((FilePath.part? piece).map (placeOf here)).getD here

theorem pieceFrom_stays {here : Key} {piece : Name}
    (notName : ∀ name, FilePath.part? piece = some (.name name) → False)
    (notUp : FilePath.part? piece = some .up → False) : pieceFrom here piece = here := by
  cases part : FilePath.part? piece with
  | none => simp [pieceFrom, part]
  | some other =>
    cases other with
    | root => simp [pieceFrom, part, placeOf]
    | here => simp [pieceFrom, part, placeOf]
    | up => exact absurd part notUp
    | name name => exact absurd part (notName name)

def wayFrom (here : Key) : List Name → List Key
  | [] => [here]
  | piece :: more => here :: wayFrom (pieceFrom here piece) more

theorem mem_wayFrom_self (here : Key) (pieces : List Name) : here ∈ wayFrom here pieces := by
  cases pieces <;> simp [wayFrom]

namespace FileTree

def way (tree : FileTree) (path : FilePath) : List Key := wayFrom (tree.start path) path.pieces

structure SameAt (tree now : FileTree) (keys : List Key) : Prop where
  home : now.home = tree.home
  nodes : ∀ key ∈ keys, now.node? key = tree.node? key

variable {tree now : FileTree} {path : FilePath} {here key : Key} {pieces : List Name}

theorem follow_congr (same : ∀ key ∈ wayFrom here pieces, now.node? key = tree.node? key) :
    now.follow here pieces = tree.follow here pieces := by
  fun_induction follow tree here pieces with
  | case1 here => rfl
  | case2 here piece more missing =>
    simp [follow, same here (mem_wayFrom_self _ _), missing]
  | case3 here piece more content found =>
    simp [follow, same here (mem_wayFrom_self _ _), found]
  | case4 here piece more found name part present ih =>
    have next : pieceFrom here piece = here ++ [name] := by simp [pieceFrom, part, placeOf]
    have rest := (List.forall_mem_cons.1 same).2
    rw [next] at rest
    simp [follow, same here (mem_wayFrom_self _ _), found, part,
      rest _ (mem_wayFrom_self _ _), present, ih rest]
  | case5 here piece more found name part missing =>
    have next : pieceFrom here piece = here ++ [name] := by simp [pieceFrom, part, placeOf]
    have rest := (List.forall_mem_cons.1 same).2
    rw [next] at rest
    simp [follow, same here (mem_wayFrom_self _ _), found, part,
      rest _ (mem_wayFrom_self _ _), missing]
  | case6 here piece more found part ih =>
    have next : pieceFrom here piece = here.dropLast := by simp [pieceFrom, part, placeOf]
    have rest := (List.forall_mem_cons.1 same).2
    rw [next] at rest
    simp [follow, same here (mem_wayFrom_self _ _), found, part, ih rest]
  | case7 here piece more found notName notUp ih =>
    have next : pieceFrom here piece = here := pieceFrom_stays notName notUp
    have rest := (List.forall_mem_cons.1 same).2
    rw [next] at rest
    simp [follow, same here (mem_wayFrom_self _ _), found, ih rest]

theorem follow_mem_wayFrom (h : tree.follow here pieces = .ok key) : key ∈ wayFrom here pieces := by
  rw [follow_eq_ok h]
  clear h
  induction pieces generalizing here with
  | nil => simp [wayFrom]
  | cons piece more ih =>
    refine List.mem_cons_of_mem _ ?_
    have next : ((piece :: more).filterMap FilePath.part?).foldl placeOf here
        = (more.filterMap FilePath.part?).foldl placeOf (pieceFrom here piece) := by
      cases part : FilePath.part? piece <;> simp [pieceFrom, part]
    rw [next]
    exact ih

theorem locate_congr (same : tree.SameAt now (tree.way path)) :
    now.locate path = tree.locate path := by
  have start : now.start path = tree.start path := by rw [start, start, same.home]
  rw [locate, locate, start, follow_congr same.nodes]

theorem find?_congr (same : tree.SameAt now (tree.way path)) : now.find? path = tree.find? path := by
  rw [find?, find?, locate_congr same]
  cases located : tree.locate path with
  | error fault => rfl
  | ok key =>
    have inside : key ∈ tree.way path := by
      unfold locate at located
      split at located
      · contradiction
      · exact follow_mem_wayFrom located
    simp only [bind, Except.bind, same.nodes key inside]

theorem isFile_congr (same : tree.SameAt now (tree.way path)) :
    now.isFile path = tree.isFile path := by
  rw [isFile, isFile, find?_congr same]

theorem readText_congr (same : tree.SameAt now (tree.way path)) :
    now.readText path = tree.readText path := by
  rw [readText, readText, find?_congr same]

theorem mem_entries_iff {node : Node} (present : key ≠ []) :
    (key, node) ∈ tree.entries ↔ tree.node? key = some node := by
  rw [node?, List.isEmpty_eq_false_iff.2 present]
  simp only [Bool.false_eq_true, if_false, List.lookup_eq_some_iff]
  constructor
  · intro inside
    obtain ⟨before, behind, split⟩ := List.append_of_mem inside
    refine ⟨before, behind, split, fun entry early => ?_⟩
    have distinct := tree.distinct
    rw [split, List.map_append, List.map_cons, List.nodup_append] at distinct
    have apart := distinct.2.2 _ (List.mem_map_of_mem early) key List.mem_cons_self
    simpa using Ne.symm apart
  · rintro ⟨before, behind, split, -⟩
    simp [split]

theorem locate_ne_nil {extension : Name} (extended : path.extension? = some extension)
    (located : tree.locate path = .ok key) : key ≠ [] := by
  obtain ⟨name, named, -⟩ := Option.bind_eq_some_iff.1 extended
  obtain ⟨before, last⟩ : ∃ before, path.parts = before ++ [.name name] := by
    unfold FilePath.fileName? at named
    split at named
    · rename_i other last
      obtain rfl := Option.some.inj named
      exact List.getLast?_eq_some_iff.1 last
    · contradiction
  rw [locate_eq_ok located, destination, last, List.foldl_append]
  simp [placeOf]

end FileTree

variable {tree now : FileTree} {root : FilePath} {extension : Name} {key : Key}

def listedWith (tree : FileTree) (root : FilePath) (extension : Name) : List ListedFile :=
  (listFiles tree root).filter fun file => file.path.extension? = some extension

theorem filesBelow_sorted (tree : FileTree) (key : Key) :
    (tree.filesBelow key).Pairwise fun a b => namesNotAfter a.1 b.1 :=
  List.pairwise_mergeSort (fun a b c => namesNotAfter_orders.trans a.1 b.1 c.1)
    (fun a b => namesNotAfter_orders.total a.1 b.1) _

theorem listedWith_sorted (tree : FileTree) (root : FilePath) (extension : Name) :
    (listedWith tree root extension).Pairwise fun a b => namesNotAfter a.names b.names := by
  refine List.Pairwise.filter _ ?_
  unfold listFiles
  cases tree.locate root with
  | error fault => exact .nil
  | ok key => exact List.pairwise_map.2 (filesBelow_sorted tree key)

theorem mem_listedWith {file : ListedFile} (located : tree.locate root = .ok key) :
    file ∈ listedWith tree root extension ↔
      (root.below file.names).extension? = some extension ∧ file.path = root.below file.names ∧
        tree.node? (key ++ file.names) = some (.file file.content) := by
  simp only [listedWith, List.mem_filter, decide_eq_true_eq, mem_listFiles, located, Except.ok.injEq,
    exists_eq_left']
  have present (extended : (root.below file.names).extension? = some extension) :
      key ++ file.names ≠ [] := by
    cases split : file.names with
    | cons name more => simp
    | nil =>
      rw [split] at extended
      simpa using FileTree.locate_ne_nil extended located
  constructor
  · rintro ⟨⟨entry, spelled⟩, extended⟩
    rw [spelled] at extended
    exact ⟨extended, spelled, (FileTree.mem_entries_iff (present extended)).1 entry⟩
  · rintro ⟨extended, spelled, found⟩
    exact ⟨⟨(FileTree.mem_entries_iff (present extended)).2 found, spelled⟩, spelled ▸ extended⟩

theorem listedWith_congr (same : tree.SameAt now (tree.way root))
    (below : ∀ key, tree.locate root = .ok key → ∀ names,
      (root.below names).extension? = some extension →
        now.node? (key ++ names) = tree.node? (key ++ names)) :
    listedWith now root extension = listedWith tree root extension := by
  have located := FileTree.locate_congr same
  cases found : tree.locate root with
  | error fault => simp [listedWith, listFiles, located, found]
  | ok key =>
    have members : ∀ file, file ∈ listedWith now root extension
        ↔ file ∈ listedWith tree root extension := by
      intro file
      rw [mem_listedWith (located.trans found), mem_listedWith found]
      refine and_congr_right fun extended => and_congr_right fun _ => ?_
      rw [below key found file.names extended]
    have distinct (tree : FileTree) : (listedWith tree root extension).Nodup :=
      ((listFiles_apart tree root).filter _).imp fun ne same => ne (congrArg ListedFile.names same)
    refine List.Perm.eq_of_pairwise ?_ (listedWith_sorted now root extension)
      (listedWith_sorted tree root extension)
      ((List.perm_ext_iff_of_nodup (distinct now) (distinct tree)).2 members)
    intro a b first second before behind
    have names : a.names = b.names := namesNotAfter_orders.antisymm a.names b.names before behind
    obtain ⟨-, pathA, contentA⟩ := (mem_listedWith found).1 ((members a).1 first)
    obtain ⟨-, pathB, contentB⟩ := (mem_listedWith found).1 second
    rw [names, contentB] at contentA
    cases a
    cases b
    simp_all

end ComponentBundle.Files

namespace ComponentBundle.Project
open ComponentBundle.Text ComponentBundle.Files

theorem componentFiles_congr {tree now : FileTree} {root : FilePath} {extension : Text}
    (same : tree.SameAt now (tree.way root))
    (below : ∀ key, tree.locate root = .ok key → ∀ names,
      (root.below names).extension? = some (Text.bytes (withoutDots extension)) →
        now.node? (key ++ names) = tree.node? (key ++ names)) :
    componentFiles now root extension = componentFiles tree root extension := by
  have listed := listedWith_congr same below
  unfold listedWith at listed
  rw [componentFiles, componentFiles, listed]

end ComponentBundle.Project
