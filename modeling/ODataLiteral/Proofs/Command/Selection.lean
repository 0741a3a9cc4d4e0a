import Mathlib.Data.List.TakeWhile
import ODataLiteral.Command
import ODataLiteral.Proofs.Command.Extension
import ODataLiteral.Proofs.Command.FileTree

/-! The files that a check reads: those whose extension is asked for, and a sole file in any case. -/
namespace ODataLiteral

/-- Whether the extension of a file is one of those that are asked for, which may have dots in front. -/
def ReadFile.HasOneOf (extensions : List String) (file : ReadFile) : Prop :=
  ∃ wanted ∈ extensions, ∃ dots extension,
    wanted.toList = List.replicate dots '.' ++ extension.toList ∧ HasExtension file.path extension

theorem trimDots_eq_iff {wanted extension : String} (plain : '.' ∉ extension.toList) :
    trimDots wanted = extension ↔ ∃ dots, wanted.toList = List.replicate dots '.' ++ extension.toList := by
  constructor
  · rintro rfl
    have dot : ∀ character ∈ wanted.toList.takeWhile (· == '.'), character = '.' := by
      intro character member
      have same := List.mem_takeWhile_imp member
      simpa using same
    have front : wanted.toList.takeWhile (· == '.') =
        List.replicate (wanted.toList.takeWhile (· == '.')).length '.' :=
      List.eq_replicate_iff.mpr ⟨rfl, dot⟩
    refine ⟨(wanted.toList.takeWhile (· == '.')).length, ?_⟩
    rw [← front, trimDots, String.toList_ofList, List.takeWhile_append_dropWhile]
  · rintro ⟨dots, spelled⟩
    have behind : extension.toList.dropWhile (· == '.') = extension.toList :=
      List.dropWhile_eq_self_iff.mpr fun filled dot => plain (beq_iff_eq.mp dot ▸ List.getElem_mem filled)
    rw [trimDots, spelled, List.dropWhile_append_of_pos (by simp), behind, String.ofList_toList]

theorem ReadFile.hasOneOf_iff {extensions : List String} {file : ReadFile} :
    file.HasOneOf extensions ↔ ∃ wanted ∈ extensions, HasExtension file.path (trimDots wanted) := by
  refine exists_congr fun wanted => and_congr_right fun _ => ?_
  constructor
  · rintro ⟨dots, extension, spelled, named⟩
    rwa [(trimDots_eq_iff named.plain).mpr ⟨dots, spelled⟩]
  · intro named
    obtain ⟨dots, spelled⟩ := (trimDots_eq_iff named.plain).mp rfl
    exact ⟨dots, _, spelled, named⟩

instance (extensions : List String) (file : ReadFile) : Decidable (file.HasOneOf extensions) :=
  decidable_of_iff _ ReadFile.hasOneOf_iff.symm

theorem any_wanted (extensions : List String) (file : ReadFile) :
    (extension? file.path).any (extensions.map trimDots).contains = decide (file.HasOneOf extensions) := by
  rw [Bool.eq_iff_iff, Option.any_eq_true, decide_eq_true_eq, ReadFile.hasOneOf_iff]
  constructor
  · rintro ⟨_, found, among⟩
    obtain ⟨wanted, member, rfl⟩ := List.mem_map.mp (List.contains_iff_mem.mp among)
    exact ⟨wanted, member, extension?_iff.mp found⟩
  · rintro ⟨wanted, member, named⟩
    exact ⟨trimDots wanted, extension?_iff.mpr named, List.contains_iff_mem.mpr (List.mem_map_of_mem member)⟩

theorem selectByExtension_eq (extensions : List String) (files : List ReadFile) :
    selectByExtension extensions (files.map ReadFile.source) =
      { chosen := (files.filter (·.HasOneOf extensions)).map ReadFile.source
        skipped := files.length - (files.filter (·.HasOneOf extensions)).length } := by
  have wanted : (fun file : SourceFile => (extension? file.path).any (extensions.map trimDots).contains) ∘
      ReadFile.source = fun file : ReadFile => decide (file.HasOneOf extensions) :=
    funext (any_wanted extensions)
  have others := List.length_eq_length_filter_add (l := files) (fun file => decide (file.HasOneOf extensions))
  simp only [selectByExtension, List.partition_eq_filter_filter, List.filter_map, List.length_map,
    Function.comp_assoc, wanted]
  rw [others, Nat.add_sub_cancel_left]
  rfl

namespace CheckOptions

section Files

variable (options : CheckOptions) (locate : String → FileNode)

/-- The files at or below the paths, path after path. -/
def walked : List ReadFile :=
  options.paths.flatMap fun path => (locate path).filesAt path

/-- Whether one path is given and it leads to a file. -/
def IsSoleFile : Prop :=
  ∃ path ∈ options.paths, options.paths = [path] ∧ (locate path).isFile = true

/-- Whether a file is to be read: for its extension, or because nothing else is given. -/
def Selects (file : ReadFile) : Prop :=
  file.HasOneOf options.extensions ∨ options.IsSoleFile locate

instance : Decidable (options.IsSoleFile locate) :=
  inferInstanceAs (Decidable (∃ path ∈ options.paths, options.paths = [path] ∧ (locate path).isFile = true))

instance (file : ReadFile) : Decidable (options.Selects locate file) :=
  inferInstanceAs (Decidable (_ ∨ _))

/-- The files that are read, in the order that they are found. -/
def read : List ReadFile :=
  (options.walked locate).filter fun file => options.Selects locate file

/-- How many files are passed over. -/
def skipped : Nat :=
  (options.walked locate).length - (options.read locate).length

end Files

variable {options : CheckOptions} {locate : String → FileNode}

theorem walk_eq_walked (readable : ∀ path ∈ options.paths, (locate path).Readable path) :
    (options.paths.flatMap fun path => (locate path).walk path) =
      (options.walked locate).map fun file => .ok file.source := by
  rw [walked, List.map_flatMap]
  exact List.flatMap_congr fun path member => FileNode.walk_eq (readable path member)

theorem found_eq_walked :
    ((options.walked locate).map fun file => (.ok file.source : Except AccessFailure SourceFile)).filterMap
      Except.toOption = (options.walked locate).map ReadFile.source := by
  rw [List.filterMap_map, ← List.filterMap_eq_map]
  rfl

theorem read_eq_of_not_sole (several : ¬ options.IsSoleFile locate) :
    options.read locate = (options.walked locate).filter (·.HasOneOf options.extensions) := by
  refine List.filter_congr ?_
  intro file _
  simp [Selects, several]

/-- A sole file is all that is walked, and it is read. -/
theorem walked_eq_of_sole (readable : ∀ path ∈ options.paths, (locate path).Readable path)
    (sole : options.IsSoleFile locate) : ∃ file, options.walked locate = [file] ∧ options.read locate = [file] := by
  have selected (file : ReadFile) : options.Selects locate file := .inr sole
  obtain ⟨path, member, only, isFile⟩ := sole
  have readable := readable path member
  cases found : locate path with
  | file content =>
    rw [found] at readable
    obtain ⟨_, octets, rfl⟩ := readable
    have walked : options.walked locate = [⟨path, octets⟩] := by
      simp [CheckOptions.walked, only, found, FileNode.filesAt, FileNode.files]
    exact ⟨_, walked, by simp [read, walked, selected]⟩
  | directory entries => simp [found, FileNode.isFile] at isFile
  | inaccessible error => simp [found, FileNode.isFile] at isFile

/-- The one file that is read for lack of others was counted as passed over before. -/
theorem select_walked (readable : ∀ path ∈ options.paths, (locate path).Readable path) :
    select options.extensions (options.paths.map locate) ((options.walked locate).map ReadFile.source) =
      { chosen := (options.read locate).map ReadFile.source, skipped := options.skipped locate } := by
  by_cases sole : options.IsSoleFile locate
  · obtain ⟨file, walked, read⟩ := walked_eq_of_sole readable sole
    obtain ⟨path, _, only, isFile⟩ := sole
    rw [only, List.map_singleton, select, selectByExtension_eq, skipped, walked, read]
    by_cases wanted : file.HasOneOf options.extensions <;> simp [isFile, wanted]
  · rw [skipped, read_eq_of_not_sole sole, ← selectByExtension_eq]
    cases paths : options.paths with
    | nil => rfl
    | cons path others =>
      cases others with
      | nil =>
        have other : (locate path).isFile = false := by
          simpa [IsSoleFile, paths] using sole
        simp [select, other]
      | cons => rfl

end CheckOptions

end ODataLiteral
