import ComponentBundle.Files.Fault
import ComponentBundle.Files.Path

/-!
A tree of files and directories. Every node has one key, the names on the way to it
from the root; paths are followed to keys through directories that exist.
-/
namespace ComponentBundle.Files
open ComponentBundle.Text

inductive Content where
  | text (text : Text)
  | binary (bytes : List UInt8)
  deriving Repr, DecidableEq

def Content.ofBytes (bytes : List UInt8) : Content :=
  match String.fromUTF8? ⟨bytes.toArray⟩ with
  | some s => .text s.toList
  | none => .binary bytes

def Content.bytes : Content → List UInt8
  | .text t => t.bytes
  | .binary bytes => bytes

inductive Node where
  | directory
  | file (content : Content)
  deriving Repr, DecidableEq

abbrev Key := List Name

structure FileTree where
  /-- Where relative paths start. -/
  home : Key
  entries : List (Key × Node)
  distinct : (entries.map Prod.fst).Nodup

namespace FileTree

def node? (tree : FileTree) (key : Key) : Option Node :=
  if key.isEmpty then some .directory else tree.entries.lookup key

def without (tree : FileTree) (gone : Key → Bool) : FileTree where
  home := tree.home
  entries := tree.entries.filter fun entry => !gone entry.1
  distinct := tree.distinct.sublist ((List.filter_sublist (l := tree.entries)).map _)

def put (tree : FileTree) (key : Key) (node : Node) : FileTree where
  home := tree.home
  entries := (key, node) :: (tree.without (· = key)).entries
  distinct := by
    rw [List.map_cons, List.nodup_cons]
    refine ⟨?_, (tree.without (· = key)).distinct⟩
    simp [without]

def atHome (home : Key) : FileTree :=
  (List.range home.length).foldl (fun tree n => tree.put (home.take (n + 1)) .directory)
    ⟨home, [], by simp⟩

/-- Follows the pieces of a path. Only a directory has anything below or behind it. -/
def follow (tree : FileTree) (here : Key) : List Name → Except Fault Key
  | [] => .ok here
  | piece :: more =>
    match tree.node? here with
    | none => .error .notFound
    | some (.file _) => .error .notADirectory
    | some .directory =>
      match FilePath.part? piece with
      | some (.name name) =>
        if (tree.node? (here ++ [name])).isSome then tree.follow (here ++ [name]) more
        else .error .notFound
      | some .up => tree.follow here.dropLast more
      | _ => tree.follow here more

def start (tree : FileTree) (path : FilePath) : Key := if path.isAbsolute then [] else tree.home

/-- The key of the node that a path leads to. The empty path leads nowhere. -/
def locate (tree : FileTree) (path : FilePath) : Except Fault Key :=
  if path.spelling.isEmpty then .error .notFound
  else tree.follow (tree.start path) path.pieces

def find? (tree : FileTree) (path : FilePath) : Except Fault Node := do
  let key ← tree.locate path
  match tree.node? key with
  | some node => return node
  | none => throw .notFound

def isFile (tree : FileTree) (path : FilePath) : Bool :=
  match tree.find? path with
  | .ok (.file _) => true
  | _ => false

def isDirectory (tree : FileTree) (path : FilePath) : Bool :=
  match tree.find? path with
  | .ok .directory => true
  | _ => false

def readText (tree : FileTree) (path : FilePath) : Except Fault Text := do
  match ← tree.find? path with
  | .directory => throw .isADirectory
  | .file (.text t) => return t
  | .file (.binary _) => throw .notText

theorem node?_entry {tree : FileTree} {key : Key} {content : Content}
    (h : tree.node? key = some (.file content)) : (key, .file content) ∈ tree.entries := by
  unfold node? at h
  split at h
  · simp at h
  · obtain ⟨before, after, split, -⟩ := List.lookup_eq_some_iff.1 h
    simp [split]

theorem find?_eq_ok {tree : FileTree} {path : FilePath} {node : Node}
    (h : tree.find? path = .ok node) :
    ∃ key, tree.locate path = .ok key ∧ tree.node? key = some node := by
  unfold find? at h
  cases located : tree.locate path with
  | error fault => simp [located, bind, Except.bind] at h
  | ok key =>
    simp only [located, bind, Except.bind] at h
    split at h
    · rename_i found present
      exact ⟨key, rfl, Except.ok.inj h ▸ present⟩
    · contradiction

theorem readText_eq_ok {tree : FileTree} {path : FilePath} {t : Text}
    (h : tree.readText path = .ok t) : tree.find? path = .ok (.file (.text t)) := by
  unfold readText at h
  cases found : tree.find? path with
  | error fault => simp [found, bind, Except.bind] at h
  | ok node =>
    simp only [found, bind, Except.bind] at h
    split at h
    · contradiction
    · exact Except.ok.inj h ▸ rfl
    · contradiction

theorem readText_entry (tree : FileTree) {path : FilePath} {t : Text}
    (h : tree.readText path = .ok t) : ∃ key, (key, .file (.text t)) ∈ tree.entries := by
  obtain ⟨key, -, present⟩ := find?_eq_ok (readText_eq_ok h)
  exact ⟨key, node?_entry present⟩

end FileTree

end ComponentBundle.Files
