import Mathlib.Data.List.Basic
import ODataLiteral.Proofs.Literal.Numeral

/-! Literals that never stand in one place, and literals that end where another one does.
What follows the first digits, or the first name characters, decides between most of them. -/
namespace ODataLiteral

namespace Pattern

variable {text taken rest : Text}

/-- Where the first pattern reads, the second one does not. -/
def Excludes (first second : Pattern) : Prop :=
  ∀ text taken rest, first.split text = some (taken, rest) → second.split text = none

/-- Where both patterns read, the second one does not end later. -/
def Outlasts (first second : Pattern) : Prop :=
  ∀ text taken rest taken' rest', first.split text = some (taken, rest) →
    second.split text = some (taken', rest') → rest.length ≤ rest'.length

theorem front_of_seq {first second : Pattern}
    (read : (first ++ second).split text = some (taken, rest)) :
    ∃ before middle, first.split text = some (before, middle) ∧ rest.length ≤ middle.length := by
  obtain ⟨before, middle, after, one, two, _⟩ := split_seq_iff.mp read
  have whole := congrArg List.length (split_append two)
  rw [List.length_append] at whole
  exact ⟨before, middle, one, by omega⟩

theorem Excludes.intro {first second : Pattern}
    (never : ∀ text taken rest taken' rest', first.split text = some (taken, rest) →
      second.split text = some (taken', rest') → False) : first.Excludes second := by
  intro text taken rest read
  rcases found : second.split text with _ | ⟨taken', rest'⟩
  · rfl
  · exact (never _ _ _ _ _ read found).elim

theorem Excludes.symm {first second : Pattern} (excludes : first.Excludes second) :
    second.Excludes first := by
  refine Excludes.intro fun text _ _ _ _ read other => ?_
  rw [excludes _ _ _ other] at read
  cases read

theorem Excludes.front {first second further : Pattern} (excludes : first.Excludes second) :
    first.Excludes (second ++ further) := by
  refine Excludes.intro fun text _ _ _ _ read other => ?_
  obtain ⟨_, _, one, _⟩ := front_of_seq other
  rw [excludes _ _ _ read] at one
  cases one

theorem Excludes.alt {first second pattern : Pattern} (excludes : pattern.Excludes first)
    (excludesToo : pattern.Excludes second) : pattern.Excludes (first.alt second) := by
  intro text taken rest read
  simp only [split, excludes _ _ _ read, excludesToo _ _ _ read, Option.or_none]

theorem words_exclude {one two : String} (other : ¬ Text.ofWord one <+: Text.ofWord two)
    (otherToo : ¬ Text.ofWord two <+: Text.ofWord one) : (word one).Excludes (word two) := by
  refine Excludes.intro fun text _ _ _ _ read readToo => ?_
  have front : Text.ofWord one <+: text := ⟨_, (split_word_iff.mp read).2.symm⟩
  have frontToo : Text.ofWord two <+: text := ⟨_, (split_word_iff.mp readToo).2.symm⟩
  rcases List.prefix_or_prefix_of_prefix front frontToo with shorter | shorter
  · exact other shorter
  · exact otherToo shorter

theorem Marks.excludes {first second : Pattern} {mark other : UriChar → Bool} (marks : first.Marks mark)
    (marksToo : second.Marks other) (apart : UriChar.Apart mark other) : first.Excludes second := by
  refine Excludes.intro fun text _ _ _ _ read readToo => ?_
  obtain ⟨_, _, same, marked, _⟩ := marks _ _ _ read
  obtain ⟨_, _, same', marked', _⟩ := marksToo _ _ _ readToo
  rw [same] at same'
  cases same'
  rw [apart _ marked] at marked'
  cases marked'

theorem Marks.outlasts {first second : Pattern} {mark : UriChar → Bool} (marks : first.Marks mark)
    (counts : second.Counts) : first.Outlasts second := by
  intro text taken rest taken' rest' read other
  obtain ⟨_, _, same, _, short⟩ := marks _ _ _ read
  have count := counts _ _ _ other
  rw [← count, same, List.length_cons]
  exact Nat.le_succ_of_le short

theorem Counts.outlasts {first second : Pattern} (counts : first.Counts) (countsToo : second.Counts) :
    first.Outlasts second := by
  intro text taken rest taken' rest' read other
  have same : rest = rest' := (counts _ _ _ read).symm.trans (countsToo _ _ _ other)
  exact Nat.le_of_eq (congrArg List.length same)

section Guid

theorem groups_of_guid (read : guid.split text = some (taken, rest)) :
    ∃ eight four tail : Text, text = eight ++ .plain '-'.toUInt8 :: (four ++ tail) ∧
      eight.length = 8 ∧ (∀ character ∈ eight, character.isHexDigit = true) ∧
      four.length = 4 ∧ (∀ character ∈ four, character.isHexDigit = true) ∧
      rest.length ≤ tail.length := by
  obtain ⟨_, _, read, short₁⟩ := front_of_seq read
  obtain ⟨_, _, read, short₂⟩ := front_of_seq read
  obtain ⟨_, _, read, short₃⟩ := front_of_seq read
  obtain ⟨_, _, read, short₄⟩ := front_of_seq read
  obtain ⟨_, _, read, short₅⟩ := front_of_seq read
  obtain ⟨_, tail, read, short₆⟩ := front_of_seq read
  obtain ⟨_, _, four, front, second, _⟩ := split_seq_iff.mp read
  obtain ⟨eight, _, _, first, minus, _⟩ := split_seq_iff.mp front
  obtain ⟨rfl, least, row⟩ := split_row_iff.mp first
  obtain ⟨character, accepted, _, rfl⟩ := split_char_iff.mp minus
  obtain ⟨rfl, leastToo, rowToo⟩ := split_row_iff.mp second
  refine ⟨eight, four, tail, by rw [UriChar.eq_plain accepted], ?_, row.class_of, ?_, rowToo.class_of,
    by omega⟩
  · exact Nat.le_antisymm (row.length_le _ rfl) least
  · exact Nat.le_antisymm (rowToo.length_le _ rfl) leastToo

/-- A hexadecimal digit that is a letter. -/
def isHexLetter (character : UriChar) : Bool :=
  character.isHexDigit && !character.isDigit

theorem afterDigits_of_guid (read : guid.split text = some (taken, rest)) :
    (∃ character tail, text.afterDigits = character :: tail ∧ isHexLetter character = true ∧
      rest.length ≤ tail.length) ∨
    (∃ a b c tail, text.afterDigits = .plain '-'.toUInt8 :: a :: b :: c :: tail ∧
      c.isHexDigit = true ∧ rest.length ≤ tail.length + 3) := by
  obtain ⟨eight, four, tail, rfl, length, hex, lengthToo, hexToo, short⟩ := groups_of_guid read
  have bare : Text.unsigned (eight ++ .plain '-'.toUInt8 :: (four ++ tail)) =
      eight ++ .plain '-'.toUInt8 :: (four ++ tail) := by
    obtain ⟨first, others, rfl⟩ := List.exists_cons_of_length_eq_add_one length
    have apart : UriChar.Apart UriChar.isHexDigit UriChar.isSign := UriChar.apart_sign rfl rfl fun _ _ => rfl
    have other := apart first (hex first List.mem_cons_self)
    simp [Text.unsigned, other]
  rw [Text.afterDigits, bare, List.dropWhile_append]
  split
  · rename_i none
    obtain ⟨a, b, c, d, rfl⟩ := List.length_eq_four.mp lengthToo
    refine .inr ⟨a, b, c, d :: tail, ?_, hexToo c (by simp), ?_⟩
    · exact List.dropWhile_cons_of_neg (by decide)
    · simp only [List.length_cons]
      omega
  · rename_i notAll
    left
    cases letters : eight.dropWhile (·.isDigit) with
    | nil =>
      refine absurd ?_ notAll
      rw [letters]
      rfl
    | cons character others =>
      have other := List.head?_dropWhile_not (·.isDigit) eight
      rw [letters] at other
      have member : character ∈ eight :=
        (List.dropWhile_sublist _).subset (letters ▸ List.mem_cons_self)
      refine ⟨character, others ++ .plain '-'.toUInt8 :: (four ++ tail), rfl, ?_, ?_⟩
      · have other : character.isDigit = false := other
        rw [isHexLetter, hex character member, other]
        rfl
      · simp only [List.length_append, List.length_cons]
        omega

/-- What may follow the first digits of a unique identifier. -/
def isGuidMark (character : UriChar) : Bool :=
  isHexLetter character || character.isPlain (· == '-'.toUInt8)

theorem guid_marks : guid.Marks isGuidMark := by
  intro text taken rest read
  rcases afterDigits_of_guid read with
    ⟨character, tail, same, letter, short⟩ | ⟨a, b, c, tail, same, _, short⟩
  · exact ⟨character, tail, same, by rw [isGuidMark, letter, Bool.true_or], short⟩
  · refine ⟨_, _, same, by decide, ?_⟩
    simp only [List.length_cons]
    omega

theorem two_of_month (read : month.split text = some (taken, rest)) :
    ∃ a b, text = a :: b :: rest := by
  have two {first second : UInt8 → Bool}
      (one : (octet first ++ octet second).split text = some (taken, rest)) :
      ∃ a b, text = a :: b :: rest := by
    obtain ⟨_, _, _, one, two, _⟩ := split_seq_iff.mp one
    obtain ⟨a, _, _, rfl⟩ := split_char_iff.mp one
    obtain ⟨b, _, _, rfl⟩ := split_char_iff.mp two
    exact ⟨a, b, rfl⟩
  rcases split_alt_iff.mp read with early | ⟨_, late⟩
  · exact two early
  · exact two late

/-- The month of a date has two digits, so a minus sign follows where the second group still goes on. -/
theorem guid_excludes_yearMonthDay : guid.Excludes yearMonthDay := by
  refine Excludes.intro fun text _ _ _ _ read date => ?_
  obtain ⟨_, _, front, _⟩ := front_of_seq date
  obtain ⟨_, _, _, months, minus, _⟩ := split_seq_iff.mp front
  obtain ⟨_, _, _, years, month, _⟩ := split_seq_iff.mp months
  obtain ⟨_, _, _, year, dash, _⟩ := split_seq_iff.mp years
  obtain ⟨first, accepted, _, rfl⟩ := split_char_iff.mp dash
  obtain ⟨a, b, rfl⟩ := two_of_month month
  obtain ⟨second, acceptedToo, _, rfl⟩ := split_char_iff.mp minus
  have after := year_numeral.afterDigits year
  rw [UriChar.eq_plain accepted, UriChar.eq_plain acceptedToo,
    List.dropWhile_cons_of_neg (by decide)] at after
  rcases afterDigits_of_guid read with ⟨_, _, same, letter, _⟩ | ⟨_, _, _, _, same, hex, _⟩
  · rw [after] at same
    cases same
    exact absurd letter (by decide)
  · rw [after] at same
    cases same
    exact absurd hex (by decide)

theorem guid_excludes_word {keyword : String} {position : Nat} {character : UriChar}
    (early : position < 8) (here : (Text.ofWord keyword)[position]? = some character)
    (other : character.isHexDigit = false) : guid.Excludes (word keyword) := by
  refine Excludes.intro fun text _ _ _ _ read spelled => ?_
  obtain ⟨_, same⟩ := split_word_iff.mp spelled
  obtain ⟨eight, four, tail, groups, length, hex, _⟩ := groups_of_guid read
  have one : text[position]? = some character := by
    rw [same, List.getElem?_append_left (List.getElem?_eq_some_iff.mp here).1, here]
  rw [groups, List.getElem?_append_left (by omega)] at one
  have digit := hex character (List.mem_of_getElem? one)
  rw [other] at digit
  cases digit

end Guid

section Floating

/-- The characters that may follow the digits of a floating point numeral, which may be none. -/
def isFloatingMark (character : UriChar) : Bool :=
  character.isPlain (Octet.oneOf ".NI")

theorem double_marks : double.Marks isFloatingMark := by
  have word_ {keyword : String} {first : UriChar} {others : Text}
      (spelled : ∀ rest, Text.afterDigits (Text.ofWord keyword ++ rest) = first :: others ++ rest)
      (marked : isFloatingMark first = true) : (word keyword).Marks isFloatingMark := by
    intro text taken rest read
    obtain ⟨_, rfl⟩ := split_word_iff.mp read
    refine ⟨first, others ++ rest, spelled rest, marked, ?_⟩
    rw [List.length_append]
    exact Nat.le_add_left _ _
  refine Marks.alt (Marks.alt (word_ (fun _ => rfl) (by decide))
    (Marks.alt (word_ (fun _ => rfl) (by decide)) (word_ (fun _ => rfl) (by decide)))) ?_
  refine Marks.seq (fraction_marks.mono fun character point => ?_)
  rw [UriChar.eq_plain point]
  decide

theorem fraction_excludes_notANumberOrInfinity : fraction.Excludes notANumberOrInfinity := by
  refine Excludes.intro fun text _ _ _ _ read named => ?_
  obtain ⟨_, _, same, point, _⟩ := fraction_marks _ _ _ read
  have starts : text.afterDigits.head? = some (.plain 'N'.toUInt8) ∨
      text.afterDigits.head? = some (.plain 'I'.toUInt8) := by
    rcases split_alt_iff.mp named with nan | ⟨_, infinity⟩
    · obtain ⟨_, rfl⟩ := split_word_iff.mp nan
      exact .inl rfl
    · rcases split_alt_iff.mp infinity with negative | ⟨_, positive⟩
      · obtain ⟨_, rfl⟩ := split_word_iff.mp negative
        exact .inr rfl
      · obtain ⟨_, rfl⟩ := split_word_iff.mp positive
        exact .inr rfl
  rw [same, UriChar.eq_plain point] at starts
  rcases starts with starts | starts <;> cases starts

/-- A fraction without an exponent is read as a floating point numeral in full. -/
theorem decimal_outlasts_double : decimal.Outlasts double := by
  intro text taken rest taken' rest' read other
  obtain ⟨before, _, _, one, ahead, _⟩ := split_seq_iff.mp read
  obtain ⟨none, _, rfl⟩ := split_notBefore_iff.mp ahead
  rcases split_alt_iff.mp other with word | ⟨_, floating⟩
  · rw [fraction_excludes_notANumberOrInfinity _ _ _ one] at word
    cases word
  · obtain ⟨_, _, _, again, exponent, _⟩ := split_seq_iff.mp floating
    rw [one] at again
    cases again
    rcases (split_optional_iff rfl).mp exponent with found | ⟨_, _, rfl⟩
    · obtain ⟨_, _, front, _⟩ := front_of_seq found
      obtain ⟨_, _, mark, _⟩ := front_of_seq front
      rw [none] at mark
      cases mark
    · exact Nat.le_refl _

end Floating

section Name

theorem dropWhile_of_identifier (read : identifier.split text = some (taken, rest)) :
    text.dropWhile UriChar.isNameChar = rest := by
  obtain ⟨_, _, _, front, ahead, _⟩ := split_seq_iff.mp read
  obtain ⟨ends, _, rfl⟩ := split_notBefore_iff.mp ahead
  obtain ⟨_, _, others, one, row, _⟩ := split_seq_iff.mp front
  obtain ⟨first, accepted, _, rfl⟩ := split_char_iff.mp one
  obtain ⟨rfl, _, row⟩ := split_row_iff.mp row
  have start : UriChar.isNameChar first = true := by
    cases first with
    | encoded high low => cases accepted
    | plain octet =>
      have accepted : Octet.isNameStart octet = true := accepted
      show Octet.isNameChar octet = true
      rw [Octet.isNameChar, accepted, Bool.true_or]
  have every : ∀ character ∈ others, UriChar.isNameChar character = true := row.class_of
  rw [List.dropWhile_cons_of_pos start, List.dropWhile_append_of_pos every]
  exact dropWhile_of_none ends

theorem dropWhile_of_qualifiedName (read : qualifiedName.split text = some (taken, rest)) :
    ∃ tail, text.dropWhile UriChar.isNameChar = .plain '.'.toUInt8 :: tail ∧
      rest.length ≤ tail.length := by
  obtain ⟨_, middle, _, name, others, _⟩ := split_seq_iff.mp read
  have shorter := shrinks_split rfl _ _ _ others
  obtain ⟨pieces, run, least, _⟩ := (split_times_iff rfl).mp others
  cases run with
  | stop _ => exact absurd least (by decide)
  | more _ one _ =>
    obtain ⟨_, _, _, dot, _, _⟩ := split_seq_iff.mp one
    obtain ⟨character, accepted, _, rfl⟩ := split_char_iff.mp dot
    refine ⟨_, by rw [dropWhile_of_identifier name, UriChar.eq_plain accepted], ?_⟩
    exact Nat.le_of_lt_succ shorter

theorem quoted_excludes_qualifiedName {keyword : String}
    (names : ∀ character ∈ Text.ofWord keyword, character.isNameChar = true) :
    (word keyword ++ quote).Excludes qualifiedName := by
  refine Excludes.intro fun text _ _ _ _ read named => ?_
  obtain ⟨tail, dot, _⟩ := dropWhile_of_qualifiedName named
  obtain ⟨_, _, _, one, two, _⟩ := split_seq_iff.mp read
  obtain ⟨_, rfl⟩ := split_word_iff.mp one
  obtain ⟨character, quoted, _, rfl⟩ := split_delimiter_iff.mp two
  have apart : UriChar.Apart UriChar.isNameChar (UriChar.isDelimiter '\'') :=
    UriChar.apart_delimiter rfl fun _ _ => rfl
  rw [List.dropWhile_append_of_pos names,
    List.dropWhile_cons_of_neg (by simp [apart.symm character quoted])] at dot
  cases dot
  exact absurd quoted (by decide)

theorem guid_excludes_qualifiedName : guid.Excludes qualifiedName := by
  refine Excludes.intro fun text _ _ _ _ read named => ?_
  obtain ⟨tail, dot, _⟩ := dropWhile_of_qualifiedName named
  obtain ⟨eight, four, _, rfl, _, hex, _⟩ := groups_of_guid read
  have apart : UriChar.Apart UriChar.isHexDigit fun character => !character.isNameChar :=
    UriChar.apart_of_octets (by decide +kernel) fun _ _ => rfl
  have names : ∀ character ∈ eight, UriChar.isNameChar character = true := fun character member => by
    simpa using apart character (hex character member)
  rw [List.dropWhile_append_of_pos names, List.dropWhile_cons_of_neg (by decide)] at dot
  cases dot

end Name

end Pattern

end ODataLiteral
