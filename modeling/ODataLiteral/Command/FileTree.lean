import ODataLiteral.Bytes

/-! Files and directories, and what a path leads to.
A path can fail for its length or its characters, whatever it would lead to. -/
namespace ODataLiteral

/-- Why something cannot be opened. -/
inductive AccessError where
  | notFound
  | notADirectory
  | denied
  | nameTooLong
  | nulCharacter
deriving DecidableEq, Repr

def AccessError.message : AccessError → String
  | notFound => "No such file or directory (os error 2)"
  | notADirectory => "Not a directory (os error 20)"
  | denied => "Permission denied (os error 13)"
  | nameTooLong => "File name too long (os error 36)"
  | nulCharacter => "file name contained an unexpected NUL byte"

/-- The greatest number of octets in a path. -/
def longestPath : Nat := 4095

/-- The greatest number of octets between two slashes of a path. -/
def longestName : Nat := 255

/-- Why no path of this form can be opened. -/
def pathError? (path : String) : Option AccessError :=
  if path.toList.contains '\x00' then some .nulCharacter
  else if longestPath < path.utf8ByteSize then some .nameTooLong
  else none

/-- A file under the path that it is reported with, and what reading it gives. -/
structure SourceFile where
  path : String
  content : Except AccessError Bytes

/-- Something that cannot be opened, under the path that it is reported with. -/
structure AccessFailure where
  path : String
  error : AccessError
deriving DecidableEq, Repr

/-- A name below a path. A slash at the end of the path is not doubled. -/
def joinPath (path name : String) : String :=
  if path.endsWith "/" then path ++ name else path ++ "/" ++ name

/-- What follows the last dot of the file's name. A dot in front starts no extension. -/
def extension? (path : String) : Option String :=
  let name := (path.splitOn "/").getLastD ""
  match (name.splitOn ".").reverse with
  | last :: before :: earlier => if earlier.isEmpty && before.isEmpty then none else some last
  | _ => none

inductive FileNode where
  | file (content : Except AccessError Bytes)
  | directory (entries : List (String × FileNode))
  /-- Whatever is there cannot be opened. -/
  | inaccessible (error : AccessError)

namespace FileNode

def isFile : FileNode → Bool
  | file _ => true
  | _ => false

mutual

/-- Every file at or below a node, and in its place whatever cannot be opened. -/
def walk (path : String) : FileNode → List (Except AccessFailure SourceFile)
  | file content =>
    [.ok { path, content := (pathError? path).elim content Except.error }]
  | directory entries =>
    match pathError? path with
    | some error => [.error { path, error }]
    | none => walkEntries path entries
  | inaccessible error => [.error { path, error }]

def walkEntries (path : String) : List (String × FileNode) → List (Except AccessFailure SourceFile)
  | [] => []
  | (name, node) :: rest => node.walk (joinPath path name) ++ walkEntries path rest

end

/-- Follows the names of a path. Two dots go back to the directory before, and nothing is known of what
stands before the first one. -/
def follow : List String → (ancestors : List FileNode) → FileNode → FileNode
  | [], _, node => node
  | _ :: _, _, file _ => inaccessible .notADirectory
  | _ :: _, _, inaccessible error => inaccessible error
  | name :: rest, ancestors, directory entries =>
    if name == "" || name == "." then follow rest ancestors (directory entries)
    else if name == ".." then
      match ancestors with
      | parent :: older => follow rest older parent
      | [] => follow rest [] (directory [])
    else if longestName < name.utf8ByteSize then inaccessible .nameTooLong
    else match entries.lookup name with
      | some child => follow rest (directory entries :: ancestors) child
      | none => inaccessible .notFound

/-- What a path leads to from a directory. Nothing is known of where an absolute path starts. -/
def locate (root : FileNode) (path : String) : FileNode :=
  match pathError? path with
  | some error => inaccessible error
  | none => follow (path.splitOn "/") [] (if path.startsWith "/" then directory [] else root)

/-- The entries with a file added, and with the directories on the way to it. -/
def insert (content : Bytes) : List String → List (String × FileNode) → List (String × FileNode)
  | [], entries => entries
  | [name], entries => entries.filter (·.1 != name) ++ [(name, file (.ok content))]
  | name :: rest, entries =>
    let below := match entries.lookup name with
      | some (directory inner) => inner
      | _ => []
    entries.filter (·.1 != name) ++ [(name, directory (insert content rest below))]

/-- The directory that holds the given files, each under its relative path. -/
def ofFiles (files : List (String × Bytes)) : FileNode :=
  directory (files.foldl (fun entries (path, content) =>
    insert content (path.splitOn "/") entries) [])

end FileNode

end ODataLiteral
