import ODataLiteral.Command.FileTree
import ODataLiteral.Command.Invocation
import ODataLiteral.Token.Json
import ODataLiteral.Token.Outline

/-! The commands: showing the token of one literal, and checking files that hold one literal a line.
Lines are numbered before the empty ones are left out, so a failure names the line of the file. -/
namespace ODataLiteral

/-- What a command says, and whether it succeeded. -/
inductive Outcome where
  | success (output : String)
  | failure (report : String)
deriving DecidableEq, Repr

def checkMark : String := "\u2705"

def crossMark : String := "\u274c"

def inspect (options : InspectOptions) : Outcome :=
  match options.choice.rule.complete (Bytes.ofString options.literal) with
  | .ok token =>
    if options.json then .success (Json.pretty (token.tree Json.vocabulary))
    else
      let outline := Outline.pretty (token.tree Outline.vocabulary)
      let place := s!"[{token.span.start}, {token.span.stop})"
      .success (checkMark ++ " " ++ options.choice.name ++ " " ++ place ++ ":\n" ++ outline)
  | .error error =>
    .failure (crossMark ++ " \x60" ++ options.literal ++ "\x60 is not a \x60" ++
      options.choice.name ++ "\x60 literal: " ++ error.message)

def newline : UInt8 := '\n'.toUInt8

def carriageReturn : UInt8 := '\r'.toUInt8

theorem length_dropWhile_le (accepts : UInt8 → Bool) (source : Bytes) :
    (source.dropWhile accepts).length ≤ source.length :=
  (List.dropWhile_sublist accepts).length_le

/-- The lines between the newlines, one more than there are newlines. -/
def splitLines (source : Bytes) : List Bytes :=
  let line := source.takeWhile (· != newline)
  match _left : source.dropWhile (· != newline) with
  | [] => [line]
  | _ :: after => line :: splitLines after
termination_by source.length
decreasing_by
  have shorter := length_dropWhile_le (· != newline) source
  rw [_left] at shorter
  simp only [List.length_cons] at shorter
  omega

/-- A line without the one carriage return that it may end with. -/
def trimReturn (line : Bytes) : Bytes :=
  if line.getLast? = some carriageReturn then line.dropLast else line

/-- The lines that hold a literal, with their numbers from one on. -/
def literalLines (source : Bytes) : List (Nat × Bytes) :=
  let numbered := (splitLines source).zipIdx 1
  (numbered.map fun (line, number) => (number, trimReturn line)).filter fun (_, literal) =>
    !literal.isEmpty

structure LineFailure where
  line : Nat
  error : LiteralError
deriving DecidableEq, Repr

structure SourceReport where
  literals : Nat
  failures : List LineFailure
deriving DecidableEq, Repr

/-- How many literals a source holds and which of them the rule does not take as a whole. -/
def checkSource (rule : Rule) (source : Bytes) : SourceReport :=
  let lines := literalLines source
  { literals := lines.length
    failures := lines.filterMap fun (line, literal) =>
      match rule.complete literal with
      | .ok _ => none
      | .error error => some { line, error } }

/-- The files to check and the number of the files passed over. -/
structure Selection where
  chosen : List SourceFile
  skipped : Nat

/-- An extension as it is compared: dots in front do not count. -/
def trimDots (extension : String) : String :=
  String.ofList (extension.toList.dropWhile (· == '.'))

/-- The files with one of the extensions. -/
def selectByExtension (extensions : List String) (files : List SourceFile) : Selection :=
  let wanted := extensions.map trimDots
  let (chosen, others) := files.partition fun file =>
    (extension? file.path).any wanted.contains
  { chosen, skipped := others.length }

/-- A sole path that is a file is checked whatever its extension is. -/
def select (extensions : List String) (nodes : List FileNode) (files : List SourceFile) : Selection :=
  let selection := selectByExtension extensions files
  let soleFile := match nodes with
    | [node] => node.isFile
    | _ => false
  if soleFile && selection.chosen.isEmpty then { chosen := files, skipped := selection.skipped - 1 }
  else selection

def AccessFailure.message (failure : AccessFailure) : String :=
  s!"IO error for operation on {failure.path}: {failure.error.message}"

/-- The line on a file that was found and cannot be read. -/
def unreadableLine? (path : String) : Except AccessError SourceReport → Option String
  | .ok _ => none
  | .error error => some s!"{path}: {error.message}"

def failureLines (path : String) : Except AccessError SourceReport → List String
  | .ok report => report.failures.map fun failure => s!"{path}:{failure.line}: {failure.error.message}"
  | .error _ => []

def literalCount : Except AccessError SourceReport → Nat
  | .ok report => report.literals
  | .error _ => 0

/-- Checks what the paths lead to. What cannot be opened is reported before the files that cannot be read,
and both before the literals that fail. -/
def check (options : CheckOptions) (locate : String → FileNode) : Outcome :=
  let found := options.paths.flatMap fun path => (locate path).walk path
  let closed := found.filterMap fun finding => match finding with
    | .error failure => some failure.message
    | .ok _ => none
  let selection := select options.extensions (options.paths.map locate)
    (found.filterMap Except.toOption)
  let reports := selection.chosen.map fun file =>
    (file.path, file.content.map (checkSource options.choice.rule))
  let literals := reports.foldr (fun (_, report) rest => literalCount report + rest) 0
  let failures := reports.flatMap fun (path, report) => failureLines path report
  let errors := closed ++ reports.filterMap fun (path, report) => unreadableLine? path report
  if errors.isEmpty && failures.isEmpty then
    .success (checkMark ++ " All literals checked successfully:\n" ++
      s!"  * Analyzed {selection.chosen.length} files.\n" ++
      s!"  * Skipped {selection.skipped} files with other extensions.\n" ++
      s!"  * Checked {literals} literals.")
  else
    .failure (crossMark ++ s!" {failures.length} of {literals} literals failed to check " ++
      s!"({errors.length} I/O errors):\n" ++
      "\n".intercalate ((errors ++ failures).map ("  * " ++ ·)))

/-- What a command says, given what paths lead to. Without a command there is nothing to run. -/
def Invocation.run (locate : String → FileNode) : Invocation → Option Outcome
  | bare => none
  | .check options => some (ODataLiteral.check options locate)
  | .inspect options => some (ODataLiteral.inspect options)

end ODataLiteral
