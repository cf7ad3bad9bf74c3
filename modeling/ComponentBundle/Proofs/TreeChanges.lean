import Mathlib.Data.List.TakeWhile
import ComponentBundle.Files.Change
import ComponentBundle.Proofs.Destination

/-!
What each change does to the nodes of a tree. Where a path leads does not change with the
tree, so the node that a change is about is known before it is made.
-/
namespace ComponentBundle.Files
open ComponentBundle.Text

theorem Place.part_of_name? {place : Place} {name : Name} (h : place.name? = some name) :
    FilePath.part? place.last = some (.name name) := by
  unfold Place.name? at h
  split at h
  · rename_i found
    rw [found, Option.some.inj h]
  · contradiction

namespace FileTree

variable {tree other after : FileTree} {path : FilePath} {key : Key}

@[simp] theorem node?_nil (tree : FileTree) : tree.node? [] = some .directory := rfl

theorem node?_of_ne_nil (tree : FileTree) (h : key ≠ []) :
    tree.node? key = tree.entries.lookup key := by
  rw [node?, List.isEmpty_eq_false_iff.2 h]
  rfl

theorem lookup_cons_eq {α β : Type} [BEq α] [LawfulBEq α] [DecidableEq α] (a b : α) (value : β)
    (l : List (α × β)) : ((b, value) :: l).lookup a = if a = b then some value else l.lookup a := by
  rw [List.lookup_cons]
  split
  · rename_i same
    rw [if_pos (by simpa using same)]
  · rename_i apart
    rw [if_neg (by simpa using apart)]

theorem lookup_filter_fst {α β : Type} [BEq α] [LawfulBEq α] [DecidableEq α] (keep : α → Bool)
    (l : List (α × β)) (a : α) :
    (l.filter fun entry => keep entry.1).lookup a = if keep a then l.lookup a else none := by
  induction l with
  | nil => simp
  | cons entry l ih =>
    obtain ⟨b, value⟩ := entry
    rw [lookup_cons_eq]
    by_cases same : a = b
    · subst same
      cases kept : keep a with
      | true => simp [kept]
      | false => simpa [kept] using ih
    · cases kept : keep b <;> simp [kept, same, lookup_cons_eq, ih]

theorem node?_without (gone : Key → Bool) (present : key ≠ []) :
    (tree.without gone).node? key = if gone key then none else tree.node? key := by
  rw [node?_of_ne_nil _ present, node?_of_ne_nil _ present, without,
    lookup_filter_fst fun key => !gone key]
  cases gone key <;> rfl

theorem node?_put {node : Node} (present : key ≠ []) (place : Key) :
    (tree.put key node).node? place = if place = key then some node else tree.node? place := by
  by_cases empty : place = []
  · subst empty
    simp [Ne.symm present]
  · rw [node?_of_ne_nil _ empty, put, lookup_cons_eq]
    have behind : (tree.without fun other => decide (other = key)).node? place = _ :=
      node?_without _ empty
    rw [node?_of_ne_nil _ empty] at behind
    rw [behind]
    by_cases same : place = key <;> simp [same]

def destinationOf (tree : FileTree) (path : FilePath) : Key := tree.destination path.parts

theorem destinationOf_congr (home : other.home = tree.home) (path : FilePath) :
    other.destinationOf path = tree.destinationOf path := by
  rw [destinationOf, destinationOf, destination, destination, home]

@[simp] theorem destinationOf_put (tree : FileTree) (key : Key) (node : Node) (path : FilePath) :
    (tree.put key node).destinationOf path = tree.destinationOf path := rfl

theorem follow_append (here : Key) (front behind : List Name) :
    tree.follow here (front ++ behind)
      = (tree.follow here front).bind fun key => tree.follow key behind := by
  fun_induction follow tree here front with
  | case1 here => rfl
  | case2 here piece more missing => simp [follow, missing, Except.bind]
  | case3 here piece more content found => simp [follow, found, Except.bind]
  | case4 here piece more found name part present ih => simp [follow, found, part, present, ih]
  | case5 here piece more found name part missing =>
    simp [follow, found, part, missing, Except.bind]
  | case6 here piece more found part ih => simp [follow, found, part, ih]
  | case7 here piece more found notName notUp ih => simp [follow, found, ih]

theorem follow_append_eq_ok_iff {here : Key} {front behind : List Name} :
    tree.follow here (front ++ behind) = .ok key ↔
      ∃ mid, tree.follow here front = .ok mid ∧ tree.follow mid behind = .ok key := by
  rw [follow_append]
  cases tree.follow here front <;> simp [Except.bind]

theorem follow_ne_nil {here : Key} {pieces : List Name} (h : tree.follow here pieces = .ok key)
    (more : pieces ≠ []) : tree.node? here = some .directory := by
  cases pieces with
  | nil => contradiction
  | cons piece pieces =>
    unfold follow at h
    split at h
    · contradiction
    · contradiction
    · assumption

/-- Another tree with the same home that has all directories of this one. -/
structure Keeps (tree other : FileTree) : Prop where
  home : other.home = tree.home
  directories : ∀ key, tree.node? key = some .directory → other.node? key = some .directory

theorem Keeps.rfl : tree.Keeps tree := ⟨Eq.refl _, fun _ h => h⟩

theorem Keeps.trans (first : tree.Keeps other) (second : other.Keeps after) :
    tree.Keeps after :=
  ⟨second.home.trans first.home, fun key h => second.directories key (first.directories key h)⟩

theorem Keeps.follow (keeps : tree.Keeps other) {here : Key} {pieces : List Name}
    (h : tree.follow here pieces = .ok key) (present : (other.node? key).isSome) :
    other.follow here pieces = .ok key := by
  induction pieces generalizing here with
  | nil => exact h
  | cons piece more ih =>
    have found := follow_ne_nil h (List.cons_ne_nil _ _)
    have kept := keeps.directories here found
    rw [FileTree.follow, found] at h
    rw [FileTree.follow, kept]
    simp only at h ⊢
    split at h
    · rename_i name part
      split at h
      · have next : (other.node? (here ++ [name])).isSome := by
          by_cases last : more = []
          · subst last
            obtain rfl := Except.ok.inj h
            exact present
          · rw [keeps.directories _ (follow_ne_nil h last)]
            rfl
        simp only [next, if_true]
        exact ih h
      · contradiction
    · exact ih h
    · exact ih h

theorem Keeps.locate (keeps : tree.Keeps other) (h : tree.locate path = .ok key)
    (present : (other.node? key).isSome) : other.locate path = .ok key := by
  unfold FileTree.locate at h ⊢
  split at h
  · contradiction
  · rename_i spelled
    rw [if_neg spelled, start, keeps.home]
    exact keeps.follow h present

theorem isDirectory_iff :
    tree.isDirectory path = true ↔
      ∃ key, tree.locate path = .ok key ∧ tree.node? key = some .directory := by
  constructor
  · intro h
    unfold isDirectory at h
    split at h
    · rename_i found
      exact find?_eq_ok found
    · contradiction
  · rintro ⟨key, located, found⟩
    simp [isDirectory, find?, located, found, bind, Except.bind, pure, Except.pure]

theorem Keeps.isDirectory (keeps : tree.Keeps other) (h : tree.isDirectory path = true) :
    other.isDirectory path = true := by
  obtain ⟨key, located, found⟩ := isDirectory_iff.1 h
  have kept := keeps.directories key found
  exact isDirectory_iff.2 ⟨key, keeps.locate located (by simp [kept]), kept⟩

structure Grown (tree other : FileTree) : Prop where
  home : other.home = tree.home
  nodes : ∀ key, other.node? key = tree.node? key ∨
    tree.node? key = none ∧ other.node? key = some .directory

theorem Grown.rfl : tree.Grown tree := ⟨Eq.refl _, fun _ => Or.inl (Eq.refl _)⟩

theorem Grown.keeps (grown : tree.Grown other) : tree.Keeps other :=
  ⟨grown.home, fun key h => (grown.nodes key).elim (fun same => same.trans h) And.right⟩

theorem Grown.trans (first : tree.Grown other) (second : other.Grown after) :
    tree.Grown after := by
  refine ⟨second.home.trans first.home, fun key => ?_⟩
  rcases first.nodes key with same | ⟨free, made⟩
  · exact same ▸ second.nodes key
  · exact Or.inr ⟨free, second.keeps.directories key made⟩

theorem grown_put (present : key ≠ []) (free : tree.node? key = none) :
    tree.Grown (tree.put key .directory) := by
  refine ⟨Eq.refl _, fun place => ?_⟩
  rw [node?_put present]
  split
  · rename_i same
    exact Or.inr ⟨same ▸ free, Eq.refl _⟩
  · exact Or.inl (Eq.refl _)

theorem follow_blank {behind : List Name} (blank : ∀ piece ∈ behind, piece = [])
    (found : tree.node? key = some .directory) : tree.follow key behind = .ok key := by
  induction behind with
  | nil => rfl
  | cons piece more ih =>
    obtain ⟨rfl, rest⟩ := List.forall_mem_cons.1 blank
    rw [follow, found]
    exact ih rest

theorem pieces_split (pieces : List Name) :
    (∀ piece ∈ pieces, piece = []) ∨ ∃ front last behind,
      pieces = front ++ last :: behind ∧ last ≠ [] ∧ ∀ piece ∈ behind, piece = [] := by
  induction pieces with
  | nil => exact Or.inl (by simp)
  | cons piece more ih =>
    rcases ih with blank | ⟨front, last, behind, rfl, visible, blank⟩
    · by_cases empty : piece = []
      · exact Or.inl (List.forall_mem_cons.2 ⟨empty, blank⟩)
      · exact Or.inr ⟨[], piece, more, rfl, empty, blank⟩
    · exact Or.inr ⟨piece :: front, last, behind, rfl, visible, blank⟩

theorem place?_blank (blank : ∀ piece ∈ path.pieces, piece = []) :
    tree.place? path = if path.spelling.isEmpty then .error .notFound else .ok none := by
  have given : path.pieces.reverse.dropWhile List.isEmpty = [] := by
    refine List.dropWhile_eq_nil_iff.2 fun piece inside => ?_
    simp [blank piece (List.mem_reverse.1 inside)]
  simp [place?, given]

theorem place?_split {front behind : List Name} {last : Name}
    (split : path.pieces = front ++ last :: behind) (visible : last ≠ [])
    (blank : ∀ piece ∈ behind, piece = []) :
    tree.place? path =
      if path.spelling.isEmpty then .error .notFound
      else (tree.follow (tree.start path) front).bind fun directory =>
        if tree.node? directory = some .directory then
          .ok (some ⟨directory, last, !behind.isEmpty⟩)
        else .error .notADirectory := by
  have given : path.pieces.reverse.dropWhile List.isEmpty = last :: front.reverse := by
    rw [split, List.reverse_append, List.reverse_cons, List.append_assoc,
      List.dropWhile_append_of_pos]
    · simp [visible]
    · intro piece inside
      simp [blank piece (List.mem_reverse.1 inside)]
  have slashed : decide (front.length + 1 < path.pieces.length) = !behind.isEmpty := by
    rw [split]
    cases behind <;> simp
  rw [place?, given]
  simp only [List.reverse_cons, List.reverse_reverse, List.getLast?_concat, List.dropLast_concat,
    List.length_append, List.length_singleton, slashed]
  split
  · rfl
  · cases tree.follow (tree.start path) front with
    | error fault => rfl
    | ok directory =>
      simp only [bind, Except.bind]
      cases tree.node? directory with
      | none => rfl
      | some node => cases node <;> rfl

theorem place?_eq_ok {place : Place} (h : tree.place? path = .ok (some place)) :
    ∃ front behind, path.pieces = front ++ place.last :: behind ∧ place.last ≠ [] ∧
      (∀ piece ∈ behind, piece = []) ∧ path.spelling ≠ [] ∧
      tree.follow (tree.start path) front = .ok place.directory ∧
      tree.node? place.directory = some .directory ∧ place.slashed = !behind.isEmpty := by
  rcases pieces_split path.pieces with blank | ⟨front, last, behind, split, visible, blank⟩
  · rw [place?_blank blank] at h
    split at h <;> simp at h
  · rw [place?_split split visible blank] at h
    split at h
    · contradiction
    · rename_i spelled
      cases followed : tree.follow (tree.start path) front with
      | error fault => simp [followed, Except.bind] at h
      | ok directory =>
        simp only [followed, Except.bind] at h
        split at h
        · rename_i found
          obtain rfl := Option.some.inj (Except.ok.inj h)
          exact ⟨front, behind, split, visible, blank, by simpa using spelled, followed, found, rfl⟩
        · contradiction

theorem place?_destination {place : Place} {name : Name}
    (h : tree.place? path = .ok (some place)) (named : place.name? = some name) :
    place.directory ++ [name] = tree.destinationOf path := by
  obtain ⟨front, behind, split, -, blank, -, followed, -, -⟩ := place?_eq_ok h
  have part := Place.part_of_name? named
  have nothing : behind.filterMap FilePath.part? = [] := by
    rw [List.filterMap_eq_nil_iff]
    intro piece inside
    simp [blank piece inside, FilePath.part?]
  rw [destinationOf, destination, follow_eq_ok followed, start]
  simp only [parts_head_root_iff]
  rw [FilePath.parts, List.foldl_append, leading_placeOf, split, List.filterMap_append,
    List.filterMap_cons_some part, nothing, List.foldl_append]
  rfl

structure Receives (tree : FileTree) (path : FilePath) : Prop where
  named : ∃ place name, tree.place? path = .ok (some place) ∧ place.name? = some name ∧
    place.slashed = false
  free : tree.node? (tree.destinationOf path) ≠ some .directory

theorem Receives.ne_nil (receives : tree.Receives path) : tree.destinationOf path ≠ [] := by
  obtain ⟨place, name, found, named, -⟩ := receives.named
  simp [← place?_destination found named]

theorem Receives.locate (receives : tree.Receives path)
    (present : (tree.node? (tree.destinationOf path)).isSome) :
    tree.locate path = .ok (tree.destinationOf path) := by
  obtain ⟨place, name, found, named, flat⟩ := receives.named
  have key := place?_destination found named
  obtain ⟨front, behind, split, -, -, spelled, followed, directory, slashed⟩ := place?_eq_ok found
  obtain rfl : behind = [] := by simpa [flat] using slashed
  rw [← key] at present ⊢
  have part := Place.part_of_name? named
  rw [FileTree.locate, if_neg (by simpa using spelled), split, follow_append, followed]
  simp [Except.bind, follow, directory, part, present]

theorem Receives.kept (receives : tree.Receives path) (keeps : tree.Keeps other)
    (free : other.node? (tree.destinationOf path) ≠ some .directory) : other.Receives path := by
  obtain ⟨place, name, found, named, flat⟩ := receives.named
  obtain ⟨front, behind, split, visible, blank, spelled, followed, directory, slashed⟩ :=
    place?_eq_ok found
  have kept := keeps.directories place.directory directory
  have next := keeps.follow followed (by simp [kept])
  refine ⟨⟨place, name, ?_, named, flat⟩, destinationOf_congr keeps.home path ▸ free⟩
  rw [place?_split split visible blank, if_neg (by simpa using spelled), start, keeps.home, ← start,
    next]
  simp [Except.bind, kept, ← slashed]

end FileTree

variable {tree after : FileTree} {path source target : FilePath} {content : Content} {fault : Fault}
  {result : Except Fault Unit}

theorem writeFile_eq_ok_iff :
    writeFile path content tree = (.ok (), after) ↔
      tree.Receives path ∧ after = tree.put (tree.destinationOf path) (.file content) := by
  constructor
  · intro h
    unfold writeFile at h
    split at h
    · simp at h
    · simp at h
    · rename_i place found
      split at h
      · simp at h
      · rename_i name named
        have key := FileTree.place?_destination found named
        simp only [key] at h
        split at h
        · simp at h
        · rename_i refused
          obtain ⟨flat, free⟩ : place.slashed = false ∧
              ¬ tree.node? (tree.destinationOf path) = some .directory := by simpa using refused
          exact ⟨⟨⟨place, name, found, named, flat⟩, free⟩, by simpa using h.symm⟩
  · rintro ⟨receives, rfl⟩
    obtain ⟨place, name, found, named, flat⟩ := receives.named
    simp [writeFile, found, named, flat, FileTree.place?_destination found named, receives.free]

theorem writeFile_eq_error (h : writeFile path content tree = (.error fault, after)) :
    after = tree := by
  unfold writeFile at h
  split at h
  · simp_all
  · simp_all
  · split at h
    · simp_all
    · dsimp only at h
      split at h <;> simp_all

theorem moveFile_eq_ok_iff :
    moveFile source target tree = (.ok (), after) ↔
      ∃ old node, tree.locate source = .ok old ∧ tree.node? old = some node ∧
        tree.Receives target ∧
        after = (tree.without (· = old)).put (tree.destinationOf target) node := by
  constructor
  · intro h
    unfold moveFile at h
    split at h
    · simp at h
    · simp at h
    · simp at h
    · rename_i old place located found
      split at h
      · simp at h
      · rename_i name node named present
        have key := FileTree.place?_destination found named
        simp only [key] at h
        split at h
        · simp at h
        · split at h
          · simp at h
          · rename_i flat free
            exact ⟨old, node, located, present, ⟨⟨place, name, found, named, by simpa using flat⟩,
              free⟩, by simpa using h.symm⟩
      · simp at h
  · rintro ⟨old, node, located, present, receives, rfl⟩
    obtain ⟨place, name, found, named, flat⟩ := receives.named
    simp [moveFile, located, found, named, present, flat, FileTree.place?_destination found named,
      receives.free]

theorem moveFile_eq_error (h : moveFile source target tree = (.error fault, after)) :
    after = tree := by
  unfold moveFile at h
  split at h
  · simp_all
  · simp_all
  · simp_all
  · split at h
    · simp_all
    · dsimp only at h
      split at h
      · simp_all
      · split at h <;> simp_all
    · simp_all

theorem makeDirectory_eq_ok (h : makeDirectory path tree = (.ok (), after)) :
    tree.Grown after ∧ after.isDirectory path = true := by
  unfold makeDirectory at h
  split at h
  · simp at h
  · simp at h
  · rename_i place found
    split at h
    · simp at h
    · rename_i name named
      dsimp only at h
      split at h
      · simp at h
      · rename_i free
        have absent : tree.node? (place.directory ++ [name]) = none := by simpa using free
        obtain rfl : tree.put (place.directory ++ [name]) .directory = after := by simpa using h
        have grown := FileTree.grown_put (by simp) absent
        have present : (tree.put (place.directory ++ [name]) .directory).node?
            (place.directory ++ [name]) = some .directory := by
          simp [FileTree.node?_put]
        refine ⟨grown, FileTree.isDirectory_iff.2 ⟨place.directory ++ [name], ?_, present⟩⟩
        obtain ⟨front, behind, split, -, blank, spelled, followed, directory, -⟩ :=
          FileTree.place?_eq_ok found
        have kept := grown.keeps.directories _ directory
        have next := grown.keeps.follow followed (by simp [kept])
        have part := Place.part_of_name? named
        have start : (tree.put (place.directory ++ [name]) .directory).start path
            = tree.start path := rfl
        rw [FileTree.locate, if_neg (by simpa using spelled), split, FileTree.follow_append, start,
          next]
        simp [Except.bind, FileTree.follow, kept, part, present, FileTree.follow_blank blank present]

theorem makeDirectory_of_isDirectory (h : tree.isDirectory path = true) :
    makeDirectory path tree = (.error .alreadyExists, tree) := by
  obtain ⟨key, located, found⟩ := FileTree.isDirectory_iff.1 h
  unfold FileTree.locate at located
  split at located
  · contradiction
  · rename_i spelled
    rcases FileTree.pieces_split path.pieces with blank | ⟨front, last, behind, split, visible, blank⟩
    · simp [makeDirectory, FileTree.place?_blank blank, spelled]
    · rw [split, FileTree.follow_append_eq_ok_iff] at located
      obtain ⟨directory, followed, located⟩ := located
      have inside := FileTree.follow_ne_nil located (List.cons_ne_nil _ _)
      rw [makeDirectory, FileTree.place?_split split visible blank, if_neg spelled, followed]
      simp only [Except.bind, inside, if_true]
      split
      · rfl
      · rename_i name named
        have part := Place.part_of_name? named
        have present : (tree.node? (directory ++ [name])).isSome := by
          rw [FileTree.follow, inside] at located
          simp only [part] at located
          split at located
          · assumption
          · contradiction
        simp [present]

theorem makeAncestors_grown (paths : List FilePath) (tree : FileTree) :
    tree.Grown (makeAncestors paths tree).2 := by
  induction paths with
  | nil => exact .rfl
  | cons path above ih =>
    rw [makeAncestors]
    split
    · exact .rfl
    · split
      · rename_i made first
        exact (makeDirectory_eq_ok first).1
      · split
        · rename_i fault made higher
          rwa [higher] at ih
        · rename_i made higher
          rw [higher] at ih
          split
          · rename_i whole second
            exact ih.trans (makeDirectory_eq_ok second).1
          · exact ih
      · exact .rfl

theorem makeDirectory_made (h : makeDirectory path tree = (.ok (), after)) :
    tree.destinationOf path ≠ [] ∧ after = tree.put (tree.destinationOf path) .directory := by
  unfold makeDirectory at h
  split at h
  · simp at h
  · simp at h
  · rename_i place found
    split at h
    · simp at h
    · rename_i name named
      rw [← FileTree.place?_destination found named]
      dsimp only at h
      split at h
      · simp at h
      · exact ⟨by simp, (Prod.mk.inj h).2.symm⟩

theorem makeAncestors_made {paths : List FilePath} {key : Key}
    (found : (makeAncestors paths tree).2.node? key = some .directory) :
    tree.node? key = some .directory ∨ ∃ path ∈ paths, key = tree.destinationOf path := by
  have made : ∀ {now next : FileTree} {path : FilePath}, now.home = tree.home →
      makeDirectory path now = (.ok (), next) → next.node? key = some .directory →
        now.node? key = some .directory ∨ key = tree.destinationOf path := by
    intro now next path home first found
    obtain ⟨present, rfl⟩ := makeDirectory_made first
    rw [FileTree.node?_put present, FileTree.destinationOf_congr home] at found
    split at found
    · exact .inr ‹_›
    · exact .inl found
  induction paths with
  | nil => exact .inl found
  | cons path above ih =>
    have higher : (makeAncestors above tree).2.node? key = some .directory →
        tree.node? key = some .directory ∨
          ∃ other ∈ path :: above, key = tree.destinationOf other := fun found =>
      (ih found).imp_right fun ⟨other, inside, same⟩ => ⟨other, List.mem_cons_of_mem _ inside, same⟩
    have grown := makeAncestors_grown above tree
    rw [makeAncestors] at found
    split at found
    · exact .inl found
    · split at found
      · rename_i next first
        exact (made rfl first found).imp_right fun same => ⟨path, List.mem_cons_self, same⟩
      · split at found
        · rename_i fault now up
          exact higher (by rwa [up])
        · rename_i now up
          rw [up] at higher grown
          split at found
          · rename_i next second
            rcases made grown.keeps.home second found with old | same
            · exact higher old
            · exact .inr ⟨path, List.mem_cons_self, same⟩
          · exact higher found
      · exact .inl found

theorem makeDirectories_grown (h : makeDirectories path tree = (result, after)) :
    tree.Grown after := by
  have grown := makeAncestors_grown path.ancestors tree
  rwa [← makeDirectories, h] at grown

theorem ancestors_eq_cons (path : FilePath) : ∃ above, path.ancestors = path :: above := by
  unfold FilePath.ancestors FilePath.ancestors.go
  split
  · exact ⟨[], rfl⟩
  · split
    · exact ⟨_, rfl⟩
    · exact ⟨[], rfl⟩

theorem makeDirectories_eq_ok (h : makeDirectories path tree = (.ok (), after)) :
    path.spelling = [] ∨ after.isDirectory path = true := by
  obtain ⟨above, split⟩ := ancestors_eq_cons path
  rw [makeDirectories, split, makeAncestors] at h
  split at h
  · rename_i empty
    exact Or.inl (by simpa using empty)
  · refine Or.inr ?_
    split at h
    · rename_i made first
      obtain rfl : made = after := by simpa using h
      exact (makeDirectory_eq_ok first).2
    · split at h
      · simp at h
      · split at h
        · rename_i whole second
          obtain rfl : whole = after := by simpa using h
          exact (makeDirectory_eq_ok second).2
        · split at h
          · rename_i found
            obtain ⟨-, rfl⟩ := Prod.mk.inj h
            exact found
          · simp at h
    · split at h
      · rename_i found
        obtain ⟨-, rfl⟩ := Prod.mk.inj h
        exact found
      · simp at h

theorem makeDirectories_of_isDirectory (h : path.spelling = [] ∨ tree.isDirectory path = true) :
    makeDirectories path tree = (.ok (), tree) := by
  obtain ⟨above, split⟩ := ancestors_eq_cons path
  rw [makeDirectories, split, makeAncestors]
  rcases h with empty | found
  · simp [empty]
  · rw [makeDirectory_of_isDirectory found]
    simp [found]

theorem removeFile_eq_ok {key : Key} {old : Content} (located : tree.locate path = .ok key)
    (found : tree.node? key = some (.file old)) :
    removeFile path tree = (.ok (), tree.without (· = key)) := by
  simp [removeFile, located, found]

end ComponentBundle.Files
