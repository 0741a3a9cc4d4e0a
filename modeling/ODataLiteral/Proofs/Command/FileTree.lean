import ODataLiteral.Command.FileTree

/-! The files of a tree. A tree that can be read in full is walked to exactly its files, each of them once and in the
order of the entries. -/
namespace ODataLiteral

/-- A file that has been read. -/
structure ReadFile where
  path : String
  octets : Bytes
deriving DecidableEq, Repr

namespace FileNode

mutual

/-- Whether every path at or below a node can be opened and every file there can be read. -/
def Readable (path : String) : FileNode → Prop
  | file content => pathError? path = none ∧ ∃ octets, content = .ok octets
  | directory entries => pathError? path = none ∧ EntriesReadable path entries
  | inaccessible _ => False

def EntriesReadable (path : String) : List (String × FileNode) → Prop
  | [] => True
  | (name, node) :: rest => node.Readable (joinPath path name) ∧ EntriesReadable path rest

end

mutual

/-- The files at or below a node, with the names on the way to them. -/
def files : FileNode → List (List String × Bytes)
  | file (.ok octets) => [([], octets)]
  | file (.error _) => []
  | directory entries => entryFiles entries
  | inaccessible _ => []

def entryFiles : List (String × FileNode) → List (List String × Bytes)
  | [] => []
  | (name, node) :: rest => (node.files.map fun file => (name :: file.1, file.2)) ++ entryFiles rest

end

/-- The files at or below a node that a path leads to. -/
def filesAt (path : String) (node : FileNode) : List ReadFile :=
  node.files.map fun file => ⟨file.1.foldl joinPath path, file.2⟩

end FileNode

/-- A file as a walk finds it. -/
def ReadFile.source (file : ReadFile) : SourceFile :=
  ⟨file.path, .ok file.octets⟩

namespace FileNode

mutual

theorem walk_eq {path : String} {node : FileNode} (readable : node.Readable path) :
    node.walk path = (node.filesAt path).map fun file => .ok file.source := by
  cases node with
  | file content =>
    obtain ⟨opens, octets, rfl⟩ := readable
    simp [walk, filesAt, files, opens, ReadFile.source]
  | directory entries =>
    obtain ⟨opens, below⟩ := readable
    simp [walk, opens, walkEntries_eq below, filesAt, files, ReadFile.source]
  | inaccessible error => exact readable.elim

theorem walkEntries_eq {path : String} {entries : List (String × FileNode)} (readable : EntriesReadable path entries) :
    walkEntries path entries = (entryFiles entries).map fun file => .ok ⟨file.1.foldl joinPath path, .ok file.2⟩ := by
  cases entries with
  | nil => rfl
  | cons entry rest =>
    obtain ⟨first, others⟩ := readable
    rw [walkEntries, entryFiles, walk_eq first, walkEntries_eq others]
    simp [filesAt, ReadFile.source]

end

end FileNode

end ODataLiteral
