import ComponentBundle.Proofs.BelowRoot

/-!
How much of a relative path is decided by the file. All specifiers that lead to one file agree on
the names on the way to it, but a doubled slash or a dot between two names stays in the relative
path. So only a component right in the module root has one relative path, whatever names it.
-/
namespace ComponentBundle.Text

variable {α : Type} {mark : α}

theorem splitOn_eq_cons [DecidableEq α] {t first : List α} {rest : List (List α)}
    (pieces : splitOn mark t = first :: rest) (filled : rest ≠ []) :
    ∃ behind, t = first ++ mark :: behind := by
  obtain ⟨second, more, rfl⟩ := List.exists_cons_of_ne_nil filled
  refine ⟨[mark].intercalate (second :: more), ?_⟩
  rw [← intercalate_splitOn mark t, pieces, intercalate_cons_cons]

theorem splitOn_doubled [DecidableEq α] (mark : α) (a b : List α) :
    splitOn mark (a ++ mark :: mark :: b) = splitOn mark a ++ [] :: splitOn mark b := by
  rw [splitOn_append_cons]
  exact congrArg (splitOn mark a ++ ·) (splitOn_append_cons mark [] b)

theorem stem_of_marked {stem ending front behind : List α} (free : mark ∉ ending)
    (whole : stem ++ ending = front ++ mark :: behind) :
    ∃ more, stem = front ++ mark :: more ∧ behind = more ++ ending := by
  rcases List.append_eq_append_iff.1 whole with ⟨between, -, marked⟩ | ⟨between, cut, marked⟩
  · exact absurd (marked ▸ by simp) free
  · rcases List.cons_eq_append_iff.1 marked with ⟨-, marked⟩ | ⟨more, rfl, split⟩
    · exact absurd (marked ▸ by simp) free
    · exact ⟨more, cut, split⟩

end ComponentBundle.Text

namespace ComponentBundle.Files
open ComponentBundle.Text

variable {tree : FileTree} {root path : FilePath} {here key : Key}

theorem Plain.eq {a b : Text} (first : Plain a) (second : Plain b)
    (same : (FilePath.mk a).parts = (FilePath.mk b).parts) : a = b := by
  rw [← join_splitOn slash a, ← join_splitOn slash b] at same ⊢
  rw [ofText_join, ofText_join, parts_join (List.forall_mem_map.2 first),
    parts_join (List.forall_mem_map.2 second), List.map_map, List.map_map] at same
  rw [(List.map_inj_right fun _ _ h => bytes_injective (FilePath.Part.name.inj h)).1 same]

theorem FilePath.pieces_of_first_name {name : Name} {names : List Name}
    (named : path.parts = (name :: names).map .name) :
    name ≠ [] ∧ ∃ rest, path.pieces = name :: rest ∧ rest.filterMap part? = names.map .name := by
  obtain ⟨relative, start⟩ := leading_eq_nil_iff.1 (leading_of_names named)
  have spelled : path.spelling ≠ [] := by
    intro empty
    rw [parts_of_empty empty] at named
    contradiction
  obtain ⟨c, first, rest, pieces⟩ := pieces_eq_cons spelled relative
  have other : c :: first ≠ dot := by simpa [pieces] using start
  have named := pieces_of_names named
  rw [pieces] at named ⊢
  cases part : part? (c :: first) with
  | none => exact absurd part (part?_ne_none (List.cons_ne_nil _ _) other)
  | some found =>
    rw [List.filterMap_cons_some part] at named
    obtain ⟨rfl, behind⟩ := List.cons.inj named
    obtain rfl := name_of_part? part
    exact ⟨List.cons_ne_nil _ _, rest, rfl, behind⟩

theorem FilePath.parts_doubled_slash {a : Name} (filled : a ≠ []) (b : Name) :
    (FilePath.mk (a ++ slashByte :: slashByte :: b)).parts
      = (FilePath.mk (a ++ slashByte :: b)).parts := by
  have pieces (t : Name) : (FilePath.mk (a ++ slashByte :: t)).pieces
      = (FilePath.mk a).pieces ++ splitOn slashByte t := splitOn_append_cons slashByte a t
  have doubled : (FilePath.mk (a ++ slashByte :: slashByte :: b)).pieces
      = (FilePath.mk a).pieces ++ [] :: splitOn slashByte b := splitOn_doubled slashByte a b
  have lead (t : Name) :
      (FilePath.mk (a ++ slashByte :: t)).leading = (FilePath.mk a).leading := by
    rw [leading, leading, isAbsolute, isAbsolute, pieces,
      List.head?_append_of_ne_nil _ filled, List.head?_append_of_ne_nil _ (pieces_ne_nil _)]
  rw [parts, parts, lead, lead, doubled, pieces, List.filterMap_append, List.filterMap_append,
    List.filterMap_cons_none rfl]

namespace FileTree

theorem locate_joined_of_follow (relative : path.isAbsolute = false) (spelled : path.spelling ≠ [])
    (rooted : root.spelling ≠ [] → tree.locate root = .ok (tree.destinationOf root))
    (h : tree.follow (tree.destinationOf root) path.pieces = .ok key) :
    tree.locate (root.joined path) = .ok key := by
  by_cases empty : root.spelling = []
  · rw [destinationOf_of_empty empty] at h
    rw [FilePath.joined_of_empty empty, locate, if_neg (by simpa using spelled), start, relative]
    exact h
  · have led := rooted empty
    rw [locate, if_neg (by simpa using empty)] at led
    have filled : (root.joined path).spelling ≠ [] := by
      unfold FilePath.joined
      split
      · exact spelled
      · split <;> simp [empty]
    rw [locate, if_neg (by simpa using filled), start, FilePath.joined_isAbsolute empty relative,
      ← start]
    rcases FilePath.joined_pieces empty relative with whole | ⟨front, -, split, cut⟩
    · rw [whole]
      exact follow_append_eq_ok_iff.2 ⟨_, led, h⟩
    · -- The slash that ends the first path asks for the directory that it leads to anyway.
      obtain ⟨other, lead, last⟩ := follow_append_eq_ok_iff.1 (split ▸ led)
      rw [follow_blank (by simp) (follow_ne_nil last (List.cons_ne_nil _ _))] at last
      obtain rfl := Except.ok.inj last
      rw [cut]
      exact follow_append_eq_ok_iff.2 ⟨_, lead, h⟩

theorem follow_doubled_slash {front behind : List Name} (filled : behind ≠ [])
    (h : tree.follow here (front ++ behind) = .ok key) :
    tree.follow here (front ++ [] :: behind) = .ok key := by
  obtain ⟨mid, led, rest⟩ := follow_append_eq_ok_iff.1 h
  have blank : tree.follow mid ([] :: behind) = tree.follow mid behind := by
    rw [follow, follow_ne_nil rest filled]
    rfl
  exact follow_append_eq_ok_iff.2 ⟨mid, led, blank.trans rest⟩

end FileTree

end ComponentBundle.Files

namespace ComponentBundle.Project
open ComponentBundle.Text ComponentBundle.Files ComponentBundle.Bundle

variable {tree : FileTree} {resolver : Resolver} {location again : Location}
  {specifier path body t : Text}

theorem BelowRoot.parts_eq (below : BelowRoot tree resolver location)
    (other : BelowRoot tree resolver again) (same : again.path.same location.path = true) :
    (FilePath.mk again.relative).parts = (FilePath.mk location.relative).parts := by
  obtain ⟨names, -, -, parts, -⟩ := below.file
  obtain ⟨others, -, -, told, -⟩ := other.file
  have joined : again.path.parts = location.path.parts := by simpa [FilePath.same] using same
  rw [below.placed, other.placed, FilePath.joined_parts_of_names parts,
    FilePath.joined_parts_of_names told] at joined
  rw [parts, told, List.append_cancel_left joined]

theorem BelowRoot.relative_of_single {name : Name} (below : BelowRoot tree resolver location)
    (single : (FilePath.mk location.relative).parts = [name].map .name) :
    Text.bytes location.relative = name := by
  obtain ⟨names, content, -, parts, located, node⟩ := below.file
  obtain rfl : [name] = names :=
    (List.map_inj_right fun _ _ => FilePath.Part.name.inj).1 (single.symm.trans parts)
  obtain ⟨-, rest, pieces, blank⟩ := FilePath.pieces_of_first_name single
  have way := FileTree.follow_of_locate_joined below.relative (below.placed ▸ located)
  rw [pieces, ← List.singleton_append] at way
  obtain ⟨here, -, behind⟩ := FileTree.follow_append_eq_ok_iff.1 way
  have last : rest = [] := by
    by_contra more
    have directory := FileTree.follow_ne_nil behind more
    have place := FileTree.follow_eq_ok behind
    rw [blank] at place
    rw [place] at node
    exact absurd (node.symm.trans directory) (by simp)
  rw [← intercalate_splitOn slashByte (Text.bytes location.relative)]
  rw [show splitOn slashByte (Text.bytes location.relative) = name :: rest from pieces, last]
  simp

theorem Resolver.means_spaced (filled : path ≠ [])
    (named : ∃ names : List Name, (FilePath.mk path).parts = names.map .name)
    (bare : Bare (path ++ resolver.ending)) :
    resolver.Means (resolver.space ++ slash :: (path ++ resolver.ending)) path :=
  ⟨filled, named, _, [slash], path ++ resolver.ending, [], .spaced _, by simp, by simp, bare,
    .inl rfl⟩

theorem Resolver.bare_ended (whole : slash ∉ resolver.ending) (start : t.head? ≠ some slash)
    (filled : t ≠ []) : Bare (t ++ resolver.ending) := by
  refine ⟨by simp [filled], ?_, fun stop => whole ?_⟩
  · rwa [List.head?_append_of_ne_nil _ filled]
  · have last : resolver.ending.getLast? = some slash := by
      rwa [List.getLast?_append_of_ne_nil _ (by simp [Resolver.ending])] at stop
    exact List.mem_of_getLast? last

theorem bytes_slashed (a b : Text) :
    Text.bytes (a ++ slash :: b) = Text.bytes a ++ slashByte :: Text.bytes b :=
  bytes_middle (by decide) a b

theorem bytes_doubled_slash (a b : Text) : Text.bytes (a ++ slash :: slash :: b)
    = Text.bytes a ++ slashByte :: slashByte :: Text.bytes b := by
  rw [bytes_slashed]
  exact congrArg (Text.bytes a ++ slashByte :: ·) (bytes_slashed [] b)

theorem parts_doubled_slash_text {a : Text} (filled : a ≠ []) (b : Text) :
    (FilePath.mk (Text.bytes (a ++ slash :: slash :: b))).parts
      = (FilePath.mk (Text.bytes (a ++ slash :: b))).parts := by
  rw [bytes_doubled_slash, bytes_slashed, FilePath.parts_doubled_slash (bytes_ne_nil filled)]

theorem BelowRoot.doubled_slash {a b : Text} (below : BelowRoot tree resolver location)
    (filled : a ≠ []) (written : location.relative = a ++ slash :: b) :
    tree.isFile (resolver.locate (a ++ slash :: slash :: b)).path = true ∧
      (resolver.locate (a ++ slash :: slash :: b)).path.same location.path = true := by
  obtain ⟨names, content, some_, parts, located, node⟩ := below.file
  have same : (FilePath.mk (Text.bytes (a ++ slash :: slash :: b))).parts = names.map .name := by
    rw [parts_doubled_slash_text filled, ← written, parts]
  have relative := (FilePath.leading_eq_nil_iff.1 (FilePath.leading_of_names same)).1
  have way : tree.follow (tree.destinationOf resolver.root)
      (splitOn slashByte (Text.bytes a) ++ splitOn slashByte (Text.bytes b))
        = .ok (tree.destinationOf resolver.root ++ names) := by
    rw [← splitOn_append_cons, ← bytes_slashed, ← written]
    exact FileTree.follow_of_locate_joined below.relative (below.placed ▸ located)
  have doubled := FileTree.follow_doubled_slash (FilePath.pieces_ne_nil ⟨Text.bytes b⟩) way
  rw [FilePath.pieces, ← splitOn_doubled, ← bytes_doubled_slash] at doubled
  have spelled : Text.bytes (a ++ slash :: slash :: b) ≠ [] := bytes_ne_nil (by simp)
  have led := FileTree.locate_joined_of_follow relative spelled below.rooted doubled
  refine ⟨FileTree.isFile_iff.2 ⟨content, ?_⟩, ?_⟩
  · rw [Resolver.locate, FileTree.find?, led]
    simp only [bind, Except.bind, node]
    rfl
  · rw [FilePath.same, decide_eq_true_iff, below.placed, Resolver.locate,
      FilePath.joined_parts_of_names same, FilePath.joined_parts_of_names parts]

theorem BelowRoot.respelled (whole : slash ∉ resolver.ending)
    (below : BelowRoot tree resolver location)
    (several : 1 < (FilePath.mk location.relative).parts.length) :
    ∃ specifier again, resolver.resolve tree specifier = some again ∧
      again.path.same location.path = true ∧ again.relative ≠ location.relative := by
  obtain ⟨names, content, -, parts, -, -⟩ := below.file
  obtain ⟨first, second, more, rfl⟩ : ∃ first second more, names = first :: second :: more := by
    rw [parts, List.length_map] at several
    match names, several with
    | first :: second :: more, _ => exact ⟨first, second, more, rfl⟩
  obtain ⟨named, rest, pieces, others⟩ := FilePath.pieces_of_first_name parts
  have filled : rest ≠ [] := by
    rintro rfl
    contradiction
  obtain ⟨tail, split⟩ : ∃ tail,
      Text.bytes location.relative = first ++ (Text.bytes [slash] ++ tail) :=
    splitOn_eq_cons pieces filled
  obtain ⟨first, behind, written, rfl, -⟩ := cut_of_bytes (List.cons_ne_nil slash []) split
  rw [List.singleton_append] at written
  have named : first ≠ [] := by
    rintro rfl
    exact named rfl
  have unmarked : first.head? ≠ some slash := fun head =>
    free_of_mem_splitOn (pieces ▸ List.mem_cons_self)
      (List.mem_of_head? ((head?_bytes_iff (by decide)).2 head))
  obtain ⟨stem, -, stems, ended⟩ := below.ended
  obtain ⟨stemBehind, rfl, rfl⟩ := stem_of_marked whole (ended.symm.trans written)
  have longer : first ++ slash :: slash :: stemBehind ≠ [] := by simp
  have start : (first ++ slash :: slash :: stemBehind).head? ≠ some slash := by
    rwa [List.head?_append_of_ne_nil _ named]
  rw [← parts_doubled_slash_text named] at stems
  have means := Resolver.means_spaced longer stems (Resolver.bare_ended whole start longer)
  obtain ⟨there, same⟩ := below.doubled_slash named written
  have ending : first ++ slash :: slash :: (stemBehind ++ resolver.ending)
      = first ++ slash :: slash :: stemBehind ++ resolver.ending := by simp
  rw [ending] at there same
  refine ⟨_, _, resolve_eq_some_iff.2 ⟨_, means, .file there⟩, same, fun equal => ?_⟩
  have shorter := congrArg List.length (equal.trans written)
  simp [Resolver.locate] at shorter

/-- Specifiers that lead to one path give relative paths of the same names, and the same relative
    path where both are plain. They all give the same one just for a component right in the
    root. -/
theorem relative_stable_iff (root : FilePath) (space extension : Text) (whole : slash ∉ extension)
    (tree : FileTree) (specifier : Text) (location : Location)
    (resolved : (Resolver.of root space extension).resolve tree specifier = some location) :
    let resolver := Resolver.of root space extension
    (∀ other again, resolver.resolve tree other = some again →
        again.path.same location.path = true →
        (FilePath.mk again.relative).parts = (FilePath.mk location.relative).parts ∧
          (Plain again.relative → Plain location.relative → again.relative = location.relative)) ∧
      ((∀ other again, resolver.resolve tree other = some again →
          again.path.same location.path = true → again.relative = location.relative) ↔
        (FilePath.mk location.relative).parts.length = 1) := by
  intro resolver
  have rooted {given : Text} {found : Location} (led : resolver.resolve tree given = some found) :
      BelowRoot tree resolver found := belowRoot_of_resolve whole led
  have below := rooted resolved
  refine ⟨fun other again led same => ?_, fun stable => ?_, fun single other again led same => ?_⟩
  · have parts := below.parts_eq (rooted led) same
    exact ⟨parts, fun plain own => plain.eq own parts⟩
  · obtain ⟨names, content, some_, parts, -, -⟩ := below.file
    by_contra several
    have filled : 0 < (FilePath.mk location.relative).parts.length := by
      simpa [parts, List.length_pos_iff] using some_
    obtain ⟨other, again, led, same, differs⟩ :=
      below.respelled (Resolver.ending_free whole) (by omega)
    exact differs (stable other again led same)
  · obtain ⟨names, content, -, parts, -, -⟩ := below.file
    obtain ⟨name, rfl⟩ : ∃ name, names = [name] :=
      List.length_eq_one_iff.1 (by simpa [parts] using single)
    refine bytes_injective ?_
    rw [below.relative_of_single parts,
      (rooted led).relative_of_single ((below.parts_eq (rooted led) same).trans parts)]

def partsTree : FileTree :=
  (FileTree.atHome []).put ["parts"] .directory
    |>.put ["parts", "main.gjs"] (.file (.text "export default 1;"))
    |>.put ["parts", "form"] .directory
    |>.put ["parts", "form", "button.gjs"] (.file (.text "export default 2;"))

/-! The component right in the root has one relative path. -/

theorem main_relative_stable :
    slash ∉ ("gjs" : Text) ∧
      (Resolver.of ⟨"parts"⟩ "app" "gjs").resolve partsTree "./main" =
        some ⟨⟨"parts/main.gjs"⟩, "main.gjs"⟩ ∧
      ∀ other again, (Resolver.of ⟨"parts"⟩ "app" "gjs").resolve partsTree other = some again →
        again.path.same ⟨"parts/main.gjs"⟩ = true → again.relative = "main.gjs" := by
  have whole : slash ∉ ("gjs" : Text) := by decide
  have resolved : (Resolver.of ⟨"parts"⟩ "app" "gjs").resolve partsTree "./main" =
      some ⟨⟨"parts/main.gjs"⟩, "main.gjs"⟩ := by decide +kernel
  exact ⟨whole, resolved, (relative_stable_iff ⟨"parts"⟩ "app" "gjs" whole partsTree "./main" _
    resolved).2.2 (by decide +kernel)⟩

/-! A dot between two names: the same file is met under another identifier, name and address. -/

theorem dotted_spelling_renamed :
    let resolver := Resolver.of ⟨"parts"⟩ "app" "gjs"
    let plain : Location := ⟨⟨"parts/form/button.gjs"⟩, "form/button.gjs"⟩
    let dotted : Location := ⟨⟨"parts/form/./button.gjs"⟩, "form/./button.gjs"⟩
    let release : Release := ⟨"app", "assets", "0.0.0", "gjs", .single⟩
    resolver.resolve partsTree "app/form/button" = some plain ∧
      resolver.resolve partsTree "app/form/./button" = some dotted ∧
      dotted.path.same plain.path = true ∧ dotted.relative ≠ plain.relative ∧
      identifierOf plain.relative = "FormButton" ∧
      identifierOf dotted.relative = "Form_Button" ∧
      release.item "http://localhost" (.plain plain.relative) =
        ⟨"app/form/button", "http://localhost/assets/form/button.gjs", "0.0.0", extensionKind⟩ ∧
      release.item "http://localhost" (.plain dotted.relative) =
        ⟨"app/form/./button", "http://localhost/assets/form/./button.gjs", "0.0.0",
          extensionKind⟩ := by
  decide +kernel

end ComponentBundle.Project
