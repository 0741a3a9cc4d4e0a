import Mathlib.Data.String.Basic
import ODataLiteral.Command.FileTree

/-! The extension of a file, told from the form of its path: it stands behind the last dot of the last name, and
some of the name stands before that dot. -/
namespace ODataLiteral

section Split

open String

/-- The loop that splits a text has seen `front` in full and `middle` since the last separator. -/
theorem splitOnAux_eq (separator : Char) (front middle back : List Char) (seen : List String) :
    splitOnAux (ofList (front ++ middle ++ back)) (ofList [separator]) ⟨utf8Len front⟩
        ⟨utf8Len front + utf8Len middle⟩ 0 seen =
      seen.reverse ++ (List.splitOnPPrepend (· == separator) back middle.reverse).map ofList := by
  induction back generalizing front middle seen with
  | nil =>
    have past : Pos.Raw.atEnd (ofList (front ++ middle ++ [])) ⟨utf8Len front + utf8Len middle⟩ = true := by
      simp [atEnd_iff, -ofList_append]
    rw [splitOnAux, if_pos past, extract_of_valid front middle []]
    simp
  | cons character back ih =>
    have inside : ¬ Pos.Raw.atEnd (ofList (front ++ middle ++ character :: back))
        ⟨utf8Len front + utf8Len middle⟩ = true := by
      have width := Char.utf8Size_pos character
      simp only [atEnd_iff, rawEndPos_ofList, utf8Len_append, utf8Len_cons, Pos.Raw.mk_le_mk]
      omega
    have here := get_of_valid (front ++ middle) (character :: back)
    have next := next_of_valid (front ++ middle) character back
    have mark : Pos.Raw.get (ofList [separator]) 0 = separator := get_of_valid [] [separator]
    have markNext : Pos.Raw.next (ofList [separator]) 0 = ⟨separator.utf8Size⟩ := by
      simpa using next_of_valid [] separator []
    have markEnds : Pos.Raw.atEnd (ofList [separator]) ⟨separator.utf8Size⟩ = true := by
      simp only [atEnd_iff, rawEndPos_ofList, utf8Len_cons, utf8Len_nil, Nat.zero_add, Pos.Raw.mk_le_mk,
        Nat.le_refl]
    rw [utf8Len_append] at here next
    rw [splitOnAux, if_neg inside, here, mark, List.headD_cons, List.splitOnPPrepend_cons_eq_if]
    by_cases same : (character == separator) = true
    · have cut : (⟨utf8Len front + utf8Len middle + character.utf8Size⟩ : Pos.Raw).unoffsetBy
          ⟨separator.utf8Size⟩ = ⟨utf8Len front + utf8Len middle⟩ := by
        rw [beq_iff_eq.mp same, Pos.Raw.unoffsetBy, Nat.add_sub_cancel]
      have after := ih (front ++ middle ++ [character]) [] (ofList middle :: seen)
      rw [List.append_nil, List.append_assoc _ [character], List.singleton_append] at after
      simp only [utf8Len_append, utf8Len_cons, utf8Len_nil, Nat.zero_add, Nat.add_zero] at after
      simp only [if_pos same, next, markNext, markEnds, if_true, cut,
        extract_of_valid front middle (character :: back)]
      rw [after, List.splitOnP_eq_splitOnPPrepend, List.reverse_cons, List.append_assoc, List.reverse_reverse]
      rfl
    · have stay : (⟨utf8Len front + utf8Len middle⟩ : Pos.Raw).unoffsetBy 0 =
          ⟨utf8Len front + utf8Len middle⟩ := rfl
      have after := ih front (middle ++ [character]) seen
      rw [← List.append_assoc, List.append_assoc _ [character], List.singleton_append] at after
      simp only [utf8Len_append, utf8Len_cons, utf8Len_nil, Nat.zero_add, ← Nat.add_assoc] at after
      rw [if_neg same, if_neg same, stay, next, after, List.reverse_append, List.reverse_singleton,
        List.singleton_append]

theorem splitOn_character (text : String) (separator : Char) :
    text.splitOn (ofList [separator]) = (text.toList.splitOn separator).map ofList := by
  have whole := splitOnAux_eq separator [] [] text.toList []
  have nonempty : ¬ (ofList [separator] == "") = true := by simp [-ofList_append]
  rw [List.append_nil, List.nil_append, ofList_toList] at whole
  rw [splitOn, if_neg nonempty, List.splitOn, List.splitOnP_eq_splitOnPPrepend]
  exact whole

end Split

theorem exists_last_of_mem {separator : Char} {characters : List Char} (member : separator ∈ characters) :
    ∃ before after, characters = before ++ separator :: after ∧ separator ∉ after := by
  obtain ⟨after, before, same, free⟩ := List.eq_append_cons_of_mem (List.mem_reverse.mpr member)
  refine ⟨before.reverse, after.reverse, ?_, by simpa using free⟩
  rw [← characters.reverse_reverse, same]
  simp

/-- What may stand in front of the last name of a path: nothing, or something that a slash closes. -/
def IsDirectory (directory : List Char) : Prop :=
  directory = [] ∨ ∃ parent, directory = parent ++ ['/']

theorem exists_lastName (path : String) :
    ∃ directory name, path.toList = directory ++ name ∧ IsDirectory directory ∧ '/' ∉ name := by
  by_cases slash : '/' ∈ path.toList
  · obtain ⟨parent, name, spelled, last⟩ := exists_last_of_mem slash
    refine ⟨parent ++ ['/'], name, ?_, .inr ⟨parent, rfl⟩, last⟩
    rw [spelled, List.append_assoc, List.singleton_append]
  · exact ⟨[], path.toList, rfl, .inl rfl, slash⟩

/-- A path whose last name is a stem, a dot and an extension. -/
structure NamedFile (path : String) (directory stem : List Char) (extension : String) : Prop where
  spelled : path.toList = directory ++ (stem ++ '.' :: extension.toList)
  closed : IsDirectory directory
  filled : stem ≠ []
  last : '/' ∉ stem ++ '.' :: extension.toList
  plain : '.' ∉ extension.toList

section Name

variable {path : String} {directory name stem after : List Char}
  (closed : IsDirectory directory)
include closed

theorem lastName_eq (spelled : path.toList = directory ++ name) (last : '/' ∉ name) :
    (path.splitOn "/").getLastD "" = String.ofList name := by
  have pieces : ∃ before, path.toList.splitOn '/' = before ++ [name] := by
    rcases closed with rfl | ⟨parent, rfl⟩
    · exact ⟨[], by rw [spelled, List.nil_append, List.splitOn_eq_singleton last, List.nil_append]⟩
    · refine ⟨parent.splitOn '/', ?_⟩
      rw [spelled, List.append_assoc, List.singleton_append, List.splitOn_append_cons_self,
        List.splitOn_eq_singleton last]
  obtain ⟨before, pieces⟩ := pieces
  rw [show "/" = String.ofList ['/'] from rfl, splitOn_character, pieces]
  simp

theorem extension?_of_noDot (spelled : path.toList = directory ++ name) (last : '/' ∉ name) (plain : '.' ∉ name) :
    extension? path = none := by
  rw [extension?, lastName_eq closed spelled last, show "." = String.ofList ['.'] from rfl, splitOn_character,
    String.toList_ofList, List.splitOn_eq_singleton plain]
  rfl

theorem extension?_of_dot (spelled : path.toList = directory ++ (stem ++ '.' :: after))
    (last : '/' ∉ stem ++ '.' :: after) (plain : '.' ∉ after) :
    extension? path = if stem = [] then none else some (String.ofList after) := by
  rw [extension?, lastName_eq closed spelled last, show "." = String.ofList ['.'] from rfl, splitOn_character,
    String.toList_ofList, List.splitOn_append_cons_self, List.splitOn_eq_singleton plain]
  by_cases bare : stem = []
  · subst bare
    rfl
  · obtain ⟨before, earlier, pieces⟩ := List.exists_cons_of_ne_nil
      (mt List.reverse_eq_nil_iff.mp (List.splitOn_ne_nil '.' stem))
    have more : ¬ (earlier = [] ∧ before = []) := by
      rintro ⟨rfl, rfl⟩
      have whole : ['.'].intercalate (stem.splitOn '.') = stem := List.intercalate_splitOn '.'
      rw [List.reverse_eq_iff.mp pieces] at whole
      exact bare whole.symm
    rw [List.map_append, List.reverse_append, ← List.map_reverse (l := stem.splitOn '.'), pieces, if_neg bare]
    simpa using more

end Name

def HasExtension (path extension : String) : Prop :=
  ∃ directory stem, NamedFile path directory stem extension

theorem HasExtension.plain {path extension : String} (named : HasExtension path extension) :
    '.' ∉ extension.toList := by
  obtain ⟨_, _, named⟩ := named
  exact named.plain

theorem extension?_iff {path extension : String} :
    extension? path = some extension ↔ HasExtension path extension := by
  constructor
  · intro found
    obtain ⟨directory, name, spelled, closed, last⟩ := exists_lastName path
    by_cases dot : '.' ∈ name
    · obtain ⟨stem, after, rfl, plain⟩ := exists_last_of_mem dot
      rw [extension?_of_dot closed spelled last plain] at found
      split at found
      · contradiction
      · cases found
        rw [← String.toList_ofList (l := after)] at spelled last plain
        exact ⟨directory, stem, spelled, closed, ‹_›, last, plain⟩
    · rw [extension?_of_noDot closed spelled last dot] at found
      contradiction
  · rintro ⟨directory, stem, named⟩
    rw [extension?_of_dot named.closed named.spelled named.last named.plain, if_neg named.filled, String.ofList_toList]

instance (path extension : String) : Decidable (HasExtension path extension) :=
  decidable_of_iff (extension? path = some extension) extension?_iff

end ODataLiteral
