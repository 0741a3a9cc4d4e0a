import ODataLiteral.Proofs.Pattern.Shape

/-! Structural characters with whitespace around them. Whitespace is taken as a whole, so what a structural
character needs is that it is the first character after it. -/
namespace ODataLiteral

namespace Octet

theorem between_iff {low high : Char} {octet : UInt8} :
    between low high octet = true ↔ low.toUInt8 ≤ octet ∧ octet ≤ high.toUInt8 := by
  simp only [between, Bool.and_eq_true, decide_eq_true_iff]

theorem between_mono {low high lower higher : Char} {octet : UInt8} (least : lower.toUInt8 ≤ low.toUInt8)
    (most : high.toUInt8 ≤ higher.toUInt8) (inside : between low high octet = true) :
    between lower higher octet = true := by
  obtain ⟨above, below⟩ := between_iff.mp inside
  exact between_iff.mpr ⟨UInt8.le_trans least above, UInt8.le_trans below most⟩

end Octet

/-- Classes of characters that have nothing in common. -/
def UriChar.Apart (first second : UriChar → Bool) : Prop :=
  ∀ character, first character = true → second character = false

namespace UriChar

theorem Apart.symm {first second : UriChar → Bool} (apart : Apart first second) :
    Apart second first := by
  intro character accepted
  cases other : first character with
  | false => rfl
  | true =>
    rw [apart character other] at accepted
    cases accepted

theorem Apart.or {first other second : UriChar → Bool} (one : Apart first second)
    (two : Apart other second) : Apart (fun character => first character || other character) second := by
  intro character accepted
  rw [Bool.or_eq_true] at accepted
  exact accepted.elim (one character) (two character)

theorem false_apart (second : UriChar → Bool) : Apart (fun _ => false) second :=
  nofun

/-- Plain characters can be checked octet by octet. -/
theorem apart_of_octets {first second : UriChar → Bool}
    (plain : ∀ octet : Fin 256,
      (first (.plain (.ofFin octet)) && second (.plain (.ofFin octet))) = false)
    (encoded : ∀ high low, (first (.encoded high low) && second (.encoded high low)) = false) :
    Apart first second := by
  intro character accepted
  have neither : (first character && second character) = false := by
    cases character with
    | plain octet => exact plain octet.toFin
    | encoded high low => exact encoded high low
  rwa [accepted, Bool.true_and] at neither

def isNameChar : UriChar → Bool :=
  isPlain Octet.isNameChar

theorem eq_plain {octet : UInt8} {character : UriChar}
    (same : character.isPlain (· == octet) = true) : character = .plain octet := by
  cases character with
  | plain other => rw [beq_iff_eq.mp (same : (other == octet) = true)]
  | encoded high low => cases same

theorem apart_plain {accepts : UriChar → Bool} {octet : UInt8} (other : accepts (.plain octet) = false) :
    Apart accepts (isPlain (· == octet)) := by
  intro character accepted
  cases single : isPlain (· == octet) character with
  | false => rfl
  | true =>
    rw [eq_plain single, other] at accepted
    cases accepted

theorem apart_oneOf {accepts : UriChar → Bool} {characters : String}
    (others : characters.toList.all (fun one => !accepts (.plain one.toUInt8)) = true) :
    Apart accepts (isPlain (Octet.oneOf characters)) := by
  intro character accepted
  cases character with
  | encoded high low => rfl
  | plain octet =>
    refine List.any_eq_false.mpr fun one member same => ?_
    have other := List.all_eq_true.mp others one member
    rw [beq_iff_eq.mp same, accepted] at other
    cases other

/-- A class meets a delimiter in the plain form, which is one character, or in the encoded one. -/
theorem apart_delimiter {accepts : UriChar → Bool} {delimiter : Char}
    (plain : accepts (.plain delimiter.toUInt8) = false)
    (encoded : ∀ high low, (accepts (.encoded high low) &&
      isEncoded (· == delimiter.toUInt8) (.encoded high low)) = false) :
    Apart accepts (isDelimiter delimiter) := by
  intro character accepted
  cases character with
  | plain octet =>
    rw [isDelimiter, apart_plain plain _ accepted]
    rfl
  | encoded high low =>
    have neither := encoded high low
    rwa [accepted, Bool.true_and] at neither

theorem encoded_apart {one two : UInt8} (other : one ≠ two) (high low : UInt8) :
    (isEncoded (· == one) (.encoded high low) && isEncoded (· == two) (.encoded high low)) = false := by
  simp only [isEncoded, decoded?, Option.any_some, Bool.and_eq_false_iff, beq_eq_false_iff_ne]
  by_cases same : Octet.hexValue high * 16 + Octet.hexValue low = one
  · exact .inr (same ▸ other)
  · exact .inl same

theorem delimiters_apart {one two : Char} (other : one.toUInt8 ≠ two.toUInt8) :
    Apart (isDelimiter one) (isDelimiter two) := by
  refine apart_delimiter ?_ (encoded_apart other)
  simp [isDelimiter, isPlain, isEncoded, decoded?, other.symm]

end UriChar

namespace Pattern

variable {text taken rest : Text}

theorem dropWhile_of_none {accepts : UriChar → Bool} (ends : (char accepts).split text = none) :
    text.dropWhile accepts = text := by
  cases text with
  | nil => rfl
  | cons character tail =>
    apply List.dropWhile_cons_of_neg
    intro accepted
    rw [split_char_cons, if_pos accepted] at ends
    cases ends

theorem takeWhile_of_row {accepts : UriChar → Bool} (row : Row accepts none taken rest) :
    (taken ++ rest).takeWhile accepts = taken ∧ (taken ++ rest).dropWhile accepts = rest := by
  have stops := row.stops.resolve_left nofun
  rw [List.takeWhile_append_of_pos row.class_of, List.dropWhile_append_of_pos row.class_of]
  cases rest with
  | nil => exact ⟨List.append_nil _, rfl⟩
  | cons head tail =>
    have stop := stops head rfl
    rw [List.takeWhile_cons_of_neg (by simp [stop]), List.dropWhile_cons_of_neg (by simp [stop])]
    exact ⟨List.append_nil _, rfl⟩

theorem row_of_takeWhile (accepts : UriChar → Bool) (text : Text) :
    Row accepts none (text.takeWhile accepts) (text.dropWhile accepts) := by
  refine ⟨fun character member => ?_, nofun, .inr fun character first => ?_⟩
  · exact List.all_eq_true.mp List.all_takeWhile character member
  · have stop := List.head?_dropWhile_not accepts text
    rw [first] at stop
    exact stop

theorem split_optionalSpace_iff :
    optionalSpace.split text = some (taken, rest) ↔
      taken = text.takeWhile UriChar.isWhitespace ∧ rest = text.dropWhile UriChar.isWhitespace := by
  rw [optionalSpace, many, split_row_iff]
  constructor
  · rintro ⟨rfl, _, row⟩
    obtain ⟨same, sameRest⟩ := takeWhile_of_row row
    exact ⟨same.symm, sameRest.symm⟩
  · rintro ⟨rfl, rfl⟩
    exact ⟨List.takeWhile_append_dropWhile.symm, Nat.zero_le _, row_of_takeWhile _ _⟩

theorem split_delimiter_iff {delimiter : Char} :
    (Pattern.delimiter delimiter).split text = some (taken, rest) ↔
      ∃ character, character.isDelimiter delimiter = true ∧ taken = [character] ∧
        text = character :: rest :=
  split_char_iff

theorem split_closingBracket_iff {bracket : Char} :
    (closingBracket bracket).split text = some (taken, rest) ↔
      ∃ character, character.isDelimiter bracket = true ∧
        text.dropWhile UriChar.isWhitespace = character :: rest ∧
        taken = text.takeWhile UriChar.isWhitespace ++ [character] := by
  simp only [closingBracket, append_eq_seq, split_seq_iff, split_optionalSpace_iff,
    split_delimiter_iff]
  constructor
  · rintro ⟨_, _, _, ⟨rfl, rfl⟩, ⟨character, accepted, rfl, same⟩, rfl⟩
    exact ⟨character, accepted, same, rfl⟩
  · rintro ⟨character, accepted, same, rfl⟩
    exact ⟨_, _, _, ⟨rfl, rfl⟩, ⟨character, accepted, rfl, same⟩, rfl⟩

theorem split_openingBracket_iff {bracket : Char} :
    (openingBracket bracket).split text = some (taken, rest) ↔
      ∃ character tail, character.isDelimiter bracket = true ∧
        text.dropWhile UriChar.isWhitespace = character :: tail ∧
        rest = tail.dropWhile UriChar.isWhitespace ∧
        taken = text.takeWhile UriChar.isWhitespace ++ [character] ++
          tail.takeWhile UriChar.isWhitespace := by
  have same : (openingBracket bracket).split text =
      (seq (closingBracket bracket) optionalSpace).split text := rfl
  rw [same, split_seq_iff]
  simp only [split_closingBracket_iff, split_optionalSpace_iff]
  constructor
  · rintro ⟨_, tail, _, ⟨character, accepted, same, rfl⟩, ⟨rfl, rfl⟩, rfl⟩
    exact ⟨character, tail, accepted, same, rfl, rfl⟩
  · rintro ⟨character, tail, accepted, same, rfl, rfl⟩
    exact ⟨_, tail, _, ⟨character, accepted, same, rfl⟩, ⟨rfl, rfl⟩, rfl⟩

end Pattern

end ODataLiteral
