import ODataLiteral.Command

/-! The command line. Files are read before the command runs, which then needs no more of the system. -/
namespace ODataLiteral

/-- Why something in the file system cannot be opened. As an argument a path is at fault for its length only,
and whatever has no cause of its own counts as missing. -/
def accessError : IO.Error → AccessError
  | .inappropriateType .. => .notADirectory
  | .permissionDenied .. => .denied
  | .invalidArgument .. => .nameTooLong
  | _ => .notFound

/-- The result of an action, or why what it needs cannot be opened. -/
def accessed {α : Type} (action : IO α) : IO (Except AccessError α) := do
  match ← action.toBaseIO with
  | .ok value => return .ok value
  | .error error => return .error (accessError error)

/-- What a path of the file system leads to. -/
partial def readNode (path : String) : IO FileNode := do
  if let some error := pathError? path then return .inaccessible error
  let file := System.mkFilePath [path]
  match ← accessed file.metadata with
  | .error error => return .inaccessible error
  | .ok metadata =>
    if metadata.type != .dir then
      return .file ((← accessed (IO.FS.readBinFile file)).map (·.toList))
    match ← accessed file.readDir with
    | .error error => return .inaccessible error
    | .ok entries =>
      let nodes ← entries.toList.mapM fun entry => do
        return (entry.fileName, ← readNode (joinPath path entry.fileName))
      return .directory nodes

def usage : String :=
  "Usage: odata [-v] <COMMAND>\n\n" ++
  "Commands:\n" ++
  "  check [--rule RULE] [--literal-file-exts EXT,...] PATH...\n" ++
  "  inspect [--rule RULE] [--json] LITERAL\n\n" ++
  "RULE is primitive, geo, json or array-or-object."

def version : String := "odata 0.1.0"

/-- Answers words that ask for no command. -/
def answer : ArgumentError → IO UInt32
  | .helpRequested => do IO.println usage; return 0
  | .versionRequested => do IO.println version; return 0
  | _ => do IO.eprintln usage; return 2

/-- The nodes that the paths of an invocation lead to. -/
def gather : Invocation → IO (List (String × FileNode))
  | .check options => options.paths.mapM fun path => do return (path, ← readNode path)
  | _ => pure []

/-- Runs the invocation that the words ask for. -/
def runWords (words : List String) : IO UInt32 := do
  match Invocation.ofWords words with
  | .error error => answer error
  | .ok invocation =>
    let found ← gather invocation
    match invocation.run fun path => (found.lookup path).getD (.inaccessible .notFound) with
    | some (.success output) => IO.println output; return 0
    | some (.failure report) => IO.eprintln report; return 1
    | none => IO.println usage; return 0

end ODataLiteral

def main (words : List String) : IO UInt32 :=
  ODataLiteral.runWords words
