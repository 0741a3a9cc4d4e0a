import ODataLiteral.Proofs.Boundary
import ODataLiteral.Proofs.Command.Report
import ODataLiteral.Proofs.Command.Selection

/-! Checking files is inspecting their lines. Where everything can be read, the outcome of a check is told from the
lines of the files that are chosen, and a line is rejected with the error that an inspection of it gives. -/
namespace ODataLiteral

/-- A line that holds a literal: the path of its file, its number there, and the literal. -/
structure LiteralLine where
  path : String
  number : Nat
  literal : Bytes
deriving DecidableEq, Repr

/-- A line whose literal a rule does not take as a whole, and why not. -/
structure Rejection where
  line : LiteralLine
  error : LiteralError
deriving DecidableEq, Repr

def LiteralLine.rejection? (rule : Rule) (line : LiteralLine) : Option Rejection :=
  match rule.complete line.literal with
  | .ok _ => none
  | .error error => some { line, error }

def Rejection.entry (rejection : Rejection) : String :=
  s!"{rejection.line.path}:{rejection.line.number}: {rejection.error.message}"

/-- The lines of a file that hold a literal. Every line counts for the numbers. -/
def ReadFile.lines (file : ReadFile) : List LiteralLine :=
  ((file.octets.splitOn newline).zipIdx 1).filterMap fun line =>
    (literal? line.1).map fun literal => { path := file.path, number := line.2, literal }

section File

variable {rule : Rule} {file : ReadFile} {line : LiteralLine}

theorem LiteralLine.rejection?_eq_some_iff {rejection : Rejection} : line.rejection? rule = some rejection ↔
    rejection.line = line ∧ rule.complete line.literal = .error rejection.error := by
  rw [LiteralLine.rejection?]
  cases rule.complete line.literal with
  | ok token => simp
  | error error =>
    obtain ⟨other, reason⟩ := rejection
    simp [eq_comm]

theorem LiteralLine.rejection?_eq_none_iff : line.rejection? rule = none ↔
    ∃ token, rule.complete line.literal = .ok token := by
  rw [LiteralLine.rejection?]
  cases rule.complete line.literal <;> simp

theorem ReadFile.path_of_mem_lines (member : line ∈ file.lines) : line.path = file.path := by
  obtain ⟨_, _, held⟩ := List.mem_filterMap.mp member
  obtain ⟨_, _, rfl⟩ := Option.map_eq_some_iff.mp held
  rfl

theorem literalLines_eq (file : ReadFile) :
    literalLines file.octets = file.lines.map fun line => (line.number, line.literal) := by
  rw [literalLines_eq_filterMap, ReadFile.lines, List.map_filterMap]
  refine List.filterMap_congr fun line _ => ?_
  rw [Option.map_map]
  rfl

/-- The lines with a literal are those between the newlines that hold more than a carriage return. -/
theorem ReadFile.mem_lines_iff : line ∈ file.lines ↔
    line.path = file.path ∧ line.literal ≠ [] ∧
      ∃ whole, file.octets.IsLine line.number whole ∧ IsLiteralOf whole line.literal := by
  rw [← mem_literalLines_iff, literalLines_eq, List.mem_map]
  constructor
  · intro member
    exact ⟨path_of_mem_lines member, line, member, rfl⟩
  · rintro ⟨same, other, member, found⟩
    obtain ⟨path, number, literal⟩ := line
    obtain ⟨rfl, rfl⟩ := Prod.mk.inj found
    have whole : path = other.path := same.trans (path_of_mem_lines member).symm
    rw [whole]
    exact member

theorem ReadFile.lines_pairwise (file : ReadFile) : file.lines.Pairwise fun one two => one.number < two.number := by
  have numbered := literalLines_pairwise file.octets
  rw [literalLines_eq, List.pairwise_map] at numbered
  exact numbered

theorem checkSource_eq (rule : Rule) (file : ReadFile) :
    checkSource rule file.octets =
      { literals := file.lines.length
        failures := (file.lines.filterMap (LiteralLine.rejection? rule)).map fun rejection =>
          { line := rejection.line.number, error := rejection.error } } := by
  rw [checkSource, literalLines_eq file, List.length_map, List.filterMap_map, List.map_filterMap]
  congr 1
  refine List.filterMap_congr ?_
  intro line _
  simp only [Function.comp_apply, LiteralLine.rejection?]
  cases rule.complete line.literal <;> rfl

/-- What a file that is read adds to the failures of a check. -/
theorem failureLines_checkSource (rule : Rule) (file : ReadFile) :
    failureLines file.path (.ok (checkSource rule file.octets)) =
      (file.lines.filterMap (LiteralLine.rejection? rule)).map Rejection.entry := by
  rw [checkSource_eq, failureLines, List.map_map]
  refine List.map_congr_left ?_
  intro rejection member
  obtain ⟨line, inside, rejected⟩ := List.mem_filterMap.mp member
  obtain ⟨same, _⟩ := LiteralLine.rejection?_eq_some_iff.mp rejected
  simp only [Function.comp_apply, Rejection.entry, same, ReadFile.path_of_mem_lines inside]

end File

namespace CheckOptions

section Lines

variable (options : CheckOptions) (locate : String → FileNode)

/-- The lines with a literal, file after file. -/
def lines : List LiteralLine :=
  (options.read locate).flatMap ReadFile.lines

/-- The lines that are rejected, in their order. -/
def rejections : List Rejection :=
  (options.lines locate).filterMap (LiteralLine.rejection? options.choice.rule)

/-- What the files that are read are reported with. -/
def reports : List (String × Except AccessError SourceReport) :=
  (options.read locate).map fun file => (file.path, .ok (checkSource options.choice.rule file.octets))

end Lines

variable {options : CheckOptions} {locate : String → FileNode}

theorem reports_literals :
    (options.reports locate).foldr (fun report rest => literalCount report.2 + rest) 0 =
      (options.lines locate).length := by
  rw [reports, lines]
  induction options.read locate with
  | nil => rfl
  | cons file files ih =>
    rw [List.map_cons, List.foldr_cons, ih, List.flatMap_cons, List.length_append, checkSource_eq]
    rfl

theorem reports_failures :
    (options.reports locate).flatMap (fun report => failureLines report.1 report.2) =
      (options.rejections locate).map Rejection.entry := by
  rw [reports, rejections, lines, List.flatMap_map, List.filterMap_flatMap, List.map_flatMap]
  exact List.flatMap_congr fun file _ => failureLines_checkSource options.choice.rule file

theorem reports_unreadable :
    (options.reports locate).filterMap (fun report => unreadableLine? report.1 report.2) = [] := by
  rw [reports, List.filterMap_map]
  exact List.filterMap_eq_nil_iff.mpr fun file _ => rfl

theorem rejections_eq_nil_iff : options.rejections locate = [] ↔
    ∀ line ∈ options.lines locate, ∃ token, options.choice.rule.complete line.literal = .ok token := by
  rw [rejections, List.filterMap_eq_nil_iff]
  exact forall₂_congr fun line _ => LiteralLine.rejection?_eq_none_iff

theorem check_eq (readable : ∀ path ∈ options.paths, (locate path).Readable path) :
    check options locate =
      if options.rejections locate = [] then
        .success (checkMark ++ " All literals checked successfully:\n" ++
          s!"  * Analyzed {(options.read locate).length} files.\n" ++
          s!"  * Skipped {options.skipped locate} files with other extensions.\n" ++
          s!"  * Checked {(options.lines locate).length} literals.")
      else
        .failure (crossMark ++
          s!" {(options.rejections locate).length} of {(options.lines locate).length} literals failed to check " ++
          "(0 I/O errors):\n" ++
          "\n".intercalate ((options.rejections locate).map fun rejection => "  * " ++ rejection.entry)) := by
  have reported : ((options.read locate).map ReadFile.source).map (fun file =>
      (file.path, file.content.map (checkSource options.choice.rule))) = options.reports locate := by
    rw [List.map_map]
    rfl
  have noErrors : toString "(" ++ toString 0 ++ toString " I/O errors):\n" = "(0 I/O errors):\n" := by decide
  simp only [check, walk_eq_walked readable, found_eq_walked, select_walked readable, reported,
    reports_literals, reports_failures, reports_unreadable]
  simp only [List.filterMap_map, Function.comp_def, List.filterMap_none, List.append_nil, List.nil_append,
    List.length_map, List.map_map, List.length_nil, noErrors]
  by_cases clean : options.rejections locate = []
  · simp [clean]
  · simp [clean]

end CheckOptions

theorem inspect_succeeds_iff {options : InspectOptions} :
    (∃ output, inspect options = .success output) ↔
      ∃ token, options.choice.rule.complete (Bytes.ofString options.literal) = .ok token := by
  rw [inspect]
  cases options.choice.rule.complete (Bytes.ofString options.literal) with
  | ok token => cases options.json <;> simp
  | error error => simp

theorem inspect_of_error {choice : RuleChoice} {literal : String} {error : LiteralError} (json : Bool)
    (refused : choice.rule.complete (Bytes.ofString literal) = .error error) :
    inspect { choice, json, literal } =
      .failure (crossMark ++ " \x60" ++ literal ++ "\x60 is not a \x60" ++ choice.name ++ "\x60 literal: " ++
        error.message) := by
  simp only [inspect, refused]

/-- A check of paths that can be read in full. It reads the files that are chosen by their extensions, or the one file
that is given. It succeeds where every line of these files is a literal as a whole, which for lines that are texts an
inspection finds as well. It counts what it reads, and it reports each other line with the error of an inspection. -/
theorem check_aggregates (options : CheckOptions) (locate : String → FileNode)
    (readable : ∀ path ∈ options.paths, (locate path).Readable path) :
    (select options.extensions (options.paths.map locate)
      ((options.paths.flatMap fun path => (locate path).walk path).filterMap Except.toOption)).chosen =
        (options.read locate).map ReadFile.source ∧
    (∀ file ∈ options.read locate, file.lines.Pairwise (fun one two => one.number < two.number) ∧
      ∀ line, line ∈ file.lines ↔ line.path = file.path ∧ line.literal ≠ [] ∧
        ∃ whole, file.octets.IsLine line.number whole ∧ IsLiteralOf whole line.literal) ∧
    ((∃ output, check options locate = .success output) ↔
      ∀ line ∈ options.lines locate, ∃ token, options.choice.rule.complete line.literal = .ok token) ∧
    ((∀ line ∈ options.lines locate, Utf8.Valid line.literal) →
      ((∃ output, check options locate = .success output) ↔
        ∀ line ∈ options.lines locate, ∃ literal, Bytes.ofString literal = line.literal ∧
          ∀ json, ∃ output, inspect { choice := options.choice, json, literal } = .success output)) ∧
    (∀ output, check options locate = .success output →
      ∃ skipped, (options.read locate).length + skipped = (options.walked locate).length ∧
        output = checkMark ++ " All literals checked successfully:\n" ++
          s!"  * Analyzed {(options.read locate).length} files.\n" ++
          s!"  * Skipped {skipped} files with other extensions.\n" ++
          s!"  * Checked {(options.lines locate).length} literals.") ∧
    (∀ report, check options locate = .failure report →
      report = crossMark ++
        s!" {(options.rejections locate).length} of {(options.lines locate).length} literals failed to check " ++
        "(0 I/O errors):\n" ++
        "\n".intercalate ((options.rejections locate).map fun rejection => "  * " ++ rejection.entry)) ∧
    ∀ rejection ∈ options.rejections locate, ∀ literal, Bytes.ofString literal = rejection.line.literal →
      ∀ json, inspect { choice := options.choice, json, literal } =
        .failure (crossMark ++ " \x60" ++ literal ++ "\x60 is not a \x60" ++ options.choice.name ++ "\x60 literal: " ++
          rejection.error.message) := by
  have outcome := CheckOptions.check_eq readable
  have succeeds : (∃ output, check options locate = .success output) ↔
      ∀ line ∈ options.lines locate, ∃ token, options.choice.rule.complete line.literal = .ok token := by
    rw [← CheckOptions.rejections_eq_nil_iff, outcome]
    split <;> simp [*]
  refine ⟨?_, fun file _ => ⟨file.lines_pairwise, fun line => ReadFile.mem_lines_iff⟩, succeeds, ?_, ?_, ?_, ?_⟩
  · rw [CheckOptions.walk_eq_walked readable, CheckOptions.found_eq_walked, CheckOptions.select_walked readable]
  · intro texts
    rw [succeeds]
    refine forall₂_congr fun line member => ?_
    simp only [inspect_succeeds_iff]
    constructor
    · rintro ⟨token, accepted⟩
      obtain ⟨literal, spelled⟩ := Utf8.valid_iff_ofString.mp (texts line member)
      exact ⟨literal, spelled, fun _ => ⟨token, by rw [spelled, accepted]⟩⟩
    · rintro ⟨literal, spelled, accepted⟩
      rw [← spelled]
      exact accepted false
  · intro output success
    rw [outcome] at success
    split at success
    · cases success
      exact ⟨_, Nat.add_sub_of_le (List.length_filter_le _ _), rfl⟩
    · contradiction
  · intro report failure
    rw [outcome] at failure
    split at failure
    · contradiction
    · cases failure
      rfl
  · intro rejection member literal spelled json
    obtain ⟨line, _, rejected⟩ := List.mem_filterMap.mp member
    obtain ⟨rfl, refused⟩ := LiteralLine.rejection?_eq_some_iff.mp rejected
    exact inspect_of_error json (by rw [spelled, refused])

/-- One file is read although its extension is not asked for. The line that is no literal is the third one. -/
theorem check_aggregates_soleFile :
    (FileNode.file (.ok [0x31, 0x0D, 0x0A, 0x0A, 0x78])).Readable "a.md" ∧
    check { choice := .json, extensions := [".txt"], paths := ["a.md"] }
        (fun _ => .file (.ok [0x31, 0x0D, 0x0A, 0x0A, 0x78])) =
      .failure (crossMark ++ " 1 of 2 literals failed to check (0 I/O errors):\n" ++
        "  * a.md:3: no literal matches at byte offset 0") := by
  have readable : (FileNode.file (.ok [0x31, 0x0D, 0x0A, 0x0A, 0x78])).Readable "a.md" := ⟨by decide, _, rfl⟩
  obtain ⟨_, _, succeeds, _, _, reported, _⟩ := check_aggregates
    { choice := .json, extensions := [".txt"], paths := ["a.md"] } (fun _ => .file (.ok [0x31, 0x0D, 0x0A, 0x0A, 0x78]))
    (by simpa using readable)
  have read : CheckOptions.read { choice := .json, extensions := [".txt"], paths := ["a.md"] }
      (fun _ => .file (.ok [0x31, 0x0D, 0x0A, 0x0A, 0x78])) = [⟨"a.md", [0x31, 0x0D, 0x0A, 0x0A, 0x78]⟩] := by
    simp [CheckOptions.read, CheckOptions.walked, CheckOptions.Selects, CheckOptions.IsSoleFile, FileNode.isFile,
      FileNode.filesAt, FileNode.files]
  have lines : CheckOptions.lines { choice := .json, extensions := [".txt"], paths := ["a.md"] }
      (fun _ => .file (.ok [0x31, 0x0D, 0x0A, 0x0A, 0x78])) = [⟨"a.md", 1, [0x31]⟩, ⟨"a.md", 3, [0x78]⟩] := by
    rw [CheckOptions.lines, read]
    decide
  have refused : RuleChoice.json.rule.complete [0x78] = .error (.noMatch 0) := by rfl
  have rejections : CheckOptions.rejections { choice := .json, extensions := [".txt"], paths := ["a.md"] }
      (fun _ => .file (.ok [0x31, 0x0D, 0x0A, 0x0A, 0x78])) = [⟨⟨"a.md", 3, [0x78]⟩, .noMatch 0⟩] := by
    rw [CheckOptions.rejections, lines]
    decide +kernel
  refine ⟨readable, ?_⟩
  cases outcome : check { choice := .json, extensions := [".txt"], paths := ["a.md"] }
      (fun _ => .file (.ok [0x31, 0x0D, 0x0A, 0x0A, 0x78])) with
  | success output =>
    obtain ⟨token, accepted⟩ := succeeds.mp ⟨output, outcome⟩ ⟨"a.md", 3, [0x78]⟩ (by simp [lines])
    rw [refused] at accepted
    contradiction
  | failure report =>
    rw [reported report outcome, rejections, lines]
    decide +kernel

end ODataLiteral
