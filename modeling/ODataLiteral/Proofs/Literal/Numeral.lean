import ODataLiteral.Grammar.Primitive
import ODataLiteral.Proofs.Pattern.Structure

/-! What stands after the sign and the digits that a literal begins with. That character alone tells dates, times,
fractions and identifiers of a hexadecimal form apart, and an integer ends before it. -/
namespace ODataLiteral

namespace UriChar

/-- A sign as a numeral may have it. -/
def isSign (character : UriChar) : Bool :=
  character.isPlain (· == '-'.toUInt8) || character.isDelimiter '+'

def isHexDigit : UriChar → Bool :=
  isPlain Octet.isHexDigit

theorem apart_sign {accepts : UriChar → Bool} (minus : accepts (.plain '-'.toUInt8) = false)
    (plus : accepts (.plain '+'.toUInt8) = false) (encoded : ∀ high low, accepts (.encoded high low) = false) :
    Apart accepts isSign := by
  have either : Apart accepts (isDelimiter '+') :=
    apart_delimiter plus fun high low => by rw [encoded high low, Bool.false_and]
  exact Apart.symm (Apart.or (apart_plain minus).symm either.symm)

theorem isDigit_of_isSign {character : UriChar} (sign : character.isSign = true) :
    character.isDigit = false :=
  (apart_sign rfl rfl fun _ _ => rfl : Apart isDigit isSign).symm character sign

end UriChar

namespace Text

/-- A text without its sign. -/
def unsigned : Text → Text
  | [] => []
  | first :: rest => if first.isSign then rest else first :: rest

/-- What follows the sign and the digits at the front of a text. -/
def afterDigits (text : Text) : Text :=
  text.unsigned.dropWhile (·.isDigit)

/-- A sign or nothing. -/
def Signs (lead : Text) : Prop :=
  lead = [] ∨ ∃ character, lead = [character] ∧ character.isSign = true

theorem unsigned_of_signs {lead digits rest : Text} (signs : Signs lead) (filled : digits ≠ [])
    (row : ∀ character ∈ digits, character.isDigit = true) :
    Text.unsigned (lead ++ digits ++ rest) = digits ++ rest := by
  obtain ⟨first, others, rfl⟩ := List.exists_cons_of_ne_nil filled
  rcases signs with rfl | ⟨character, rfl, sign⟩
  · have other : first.isSign = false := by
      cases sign : first.isSign with
      | false => rfl
      | true =>
        have digit := row first List.mem_cons_self
        rw [UriChar.isDigit_of_isSign sign] at digit
        cases digit
    simp [Text.unsigned, other]
  · simp [Text.unsigned, sign]

theorem afterDigits_of_signs {lead digits rest : Text} (signs : Signs lead) (filled : digits ≠ [])
    (row : ∀ character ∈ digits, character.isDigit = true) :
    afterDigits (lead ++ digits ++ rest) = rest.dropWhile (·.isDigit) := by
  rw [afterDigits, unsigned_of_signs signs filled row, List.dropWhile_append_of_pos row]

end Text

namespace Pattern

variable {text taken rest : Text}

/-- A pattern that takes digits, with or without a sign before them. -/
def Numeral (pattern : Pattern) : Prop :=
  ∀ text taken rest, pattern.split text = some (taken, rest) →
    ∃ lead digits : Text, taken = lead ++ digits ∧ Text.Signs lead ∧ digits ≠ [] ∧
      ∀ character ∈ digits, character.isDigit = true

theorem numeral_of_digits {row : Pattern} (steady : row.steady = true) (filled : row.nullable = false)
    (spells : row.Spells (·.isDigit = true)) : row.Numeral :=
  fun _ taken _ read => ⟨[], taken, rfl, .inl rfl, ne_nil_of_split filled read,
    spells_of_split steady spells read⟩

theorem numeral_of_sign {sign row : Pattern} (single : sign.nullable = false)
    (signs : ∀ text taken rest, sign.split text = some (taken, rest) →
      ∃ character, taken = [character] ∧ character.isSign = true)
    (steady : row.steady = true) (filled : row.nullable = false)
    (spells : row.Spells (·.isDigit = true)) : (optional sign ++ row).Numeral := by
  intro text taken rest read
  obtain ⟨lead, middle, digits, one, two, rfl⟩ := split_seq_iff.mp read
  refine ⟨lead, digits, rfl, ?_, ne_nil_of_split filled two, spells_of_split steady spells two⟩
  rcases (split_optional_iff single).mp one with found | ⟨_, rfl, _⟩
  · exact .inr (signs _ _ _ found)
  · exact .inl rfl

theorem sign_of_minus (read : (plain '-').split text = some (taken, rest)) :
    ∃ character, taken = [character] ∧ character.isSign = true := by
  obtain ⟨character, minus, rfl, _⟩ := split_char_iff.mp read
  exact ⟨character, rfl, by rw [UriChar.isSign, minus, Bool.true_or]⟩

theorem sign_of_sign (read : sign.split text = some (taken, rest)) :
    ∃ character, taken = [character] ∧ character.isSign = true := by
  rcases split_alt_iff.mp read with minus | ⟨_, plus⟩
  · exact sign_of_minus minus
  · obtain ⟨character, accepted, rfl, _⟩ := split_delimiter_iff.mp plus
    exact ⟨character, rfl, by rw [UriChar.isSign, accepted, Bool.or_true]⟩

/-- A pattern that ends no earlier than a character of a class, which is the first one after the digits. -/
def Marks (pattern : Pattern) (mark : UriChar → Bool) : Prop :=
  ∀ text taken rest, pattern.split text = some (taken, rest) →
    ∃ character tail, text.afterDigits = character :: tail ∧ mark character = true ∧
      rest.length ≤ tail.length

/-- A pattern that ends where the digits do. -/
def Counts (pattern : Pattern) : Prop :=
  ∀ text taken rest, pattern.split text = some (taken, rest) → text.afterDigits = rest

theorem Marks.mono {pattern : Pattern} {mark wider : UriChar → Bool} (marks : pattern.Marks mark)
    (every : ∀ character, mark character = true → wider character = true) : pattern.Marks wider := by
  intro text taken rest read
  obtain ⟨character, tail, same, marked, short⟩ := marks _ _ _ read
  exact ⟨character, tail, same, every _ marked, short⟩

theorem Marks.seq {first second : Pattern} {mark : UriChar → Bool} (marks : first.Marks mark) :
    (first ++ second).Marks mark := by
  intro text taken rest read
  obtain ⟨before, middle, after, one, two, _⟩ := split_seq_iff.mp read
  obtain ⟨character, tail, same, marked, short⟩ := marks _ _ _ one
  have shorter := congrArg List.length (split_append two)
  rw [List.length_append] at shorter
  exact ⟨character, tail, same, marked, by omega⟩

theorem Numeral.afterDigits {pattern : Pattern} (numeral : pattern.Numeral)
    (read : pattern.split text = some (taken, rest)) :
    text.afterDigits = rest.dropWhile (·.isDigit) := by
  obtain ⟨lead, digits, rfl, signs, filled, row⟩ := numeral _ _ _ read
  rw [split_append read, Text.afterDigits_of_signs signs filled row]

theorem Marks.alt {first second : Pattern} {mark : UriChar → Bool} (marks : first.Marks mark)
    (marksToo : second.Marks mark) : (first.alt second).Marks mark := by
  intro text taken rest read
  rcases split_alt_iff.mp read with one | ⟨_, two⟩
  · exact marks _ _ _ one
  · exact marksToo _ _ _ two

theorem Numeral.marks {pattern : Pattern} {mark : UriChar → Bool} (numeral : pattern.Numeral)
    (other : UriChar.Apart mark (·.isDigit)) : (pattern ++ char mark).Marks mark := by
  intro text taken rest read
  obtain ⟨_, _, _, front, last, rfl⟩ := split_seq_iff.mp read
  obtain ⟨character, marked, rfl, rfl⟩ := split_char_iff.mp last
  refine ⟨character, rest, ?_, marked, Nat.le_refl _⟩
  rw [numeral.afterDigits front, List.dropWhile_cons_of_neg (by simp [other character marked])]

theorem Numeral.counts {pattern : Pattern} (numeral : pattern.Numeral) :
    (pattern ++ notBefore digit).Counts := by
  intro text taken rest read
  obtain ⟨_, middle, _, front, last, rfl⟩ := split_seq_iff.mp read
  obtain ⟨ends, rfl, same⟩ := split_notBefore_iff.mp last
  rw [← same, numeral.afterDigits front]
  exact dropWhile_of_none ends

section Marks

theorem spells_digit : digit.Spells (·.isDigit = true) :=
  fun _ accepted => accepted

theorem fraction_marks : fraction.Marks (UriChar.isPlain (· == '.'.toUInt8)) := by
  have apart : UriChar.Apart UriChar.isDigit (UriChar.isPlain (· == '.'.toUInt8)) := UriChar.apart_plain rfl
  have numeral : (optional sign ++ atLeast 1 digit).Numeral :=
    numeral_of_sign rfl (fun _ _ _ => sign_of_sign) rfl rfl spells_digit
  exact Marks.seq (numeral.marks apart.symm)

theorem spells_digits {accepts : UInt8 → Bool}
    (digits : ∀ octet, accepts octet = true → Octet.isDigit octet = true) :
    (octet accepts).Spells (·.isDigit = true) := by
  intro character accepted
  cases character with
  | encoded high low => cases accepted
  | plain octet => exact digits octet accepted

theorem spells_plain {one : Char} (isDigit : Octet.isDigit one.toUInt8 = true) :
    (plain one).Spells (·.isDigit = true) :=
  spells_digits fun _ same => (beq_iff_eq.mp same).symm ▸ isDigit

theorem spells_between {low high : Char} (least : '0'.toUInt8 ≤ low.toUInt8)
    (most : high.toUInt8 ≤ '9'.toUInt8) :
    (octet (Octet.between low high)).Spells (·.isDigit = true) :=
  spells_digits fun _ => Octet.between_mono least most

theorem year_spells : ((plain '0' ++ exactly 3 digit ++ notBefore digit) <|>
    (octet Octet.isOneToNine ++ atLeast 3 digit)).Spells (·.isDigit = true) := by
  refine ⟨⟨⟨spells_plain (by decide), spells_digit⟩, trivial⟩, ?_, spells_digit⟩
  exact spells_between (show '0'.toUInt8 ≤ '1'.toUInt8 by decide) (show '9'.toUInt8 ≤ '9'.toUInt8 by decide)

theorem year_numeral : year.Numeral :=
  numeral_of_sign rfl (fun _ _ _ => sign_of_minus) rfl rfl year_spells

theorem yearMonthDay_marks : yearMonthDay.Marks (UriChar.isPlain (· == '-'.toUInt8)) := by
  have apart : UriChar.Apart UriChar.isDigit (UriChar.isPlain (· == '-'.toUInt8)) := UriChar.apart_plain rfl
  exact Marks.seq (Marks.seq (Marks.seq (year_numeral.marks apart.symm)))

theorem hour_spells : hour.Spells (·.isDigit = true) :=
  ⟨⟨spells_between (by decide) (by decide), spells_digit⟩, spells_plain (by decide),
    spells_between (by decide) (by decide)⟩

theorem hour_numeral : hour.Numeral :=
  numeral_of_digits rfl rfl hour_spells

theorem timeOfDay_marks : timeOfDay.Marks (UriChar.isDelimiter ':') := by
  have apart : UriChar.Apart UriChar.isDigit (UriChar.isDelimiter ':') :=
    UriChar.apart_delimiter rfl fun _ _ => rfl
  exact Marks.seq (Marks.seq (hour_numeral.marks apart.symm))

theorem signedInteger_counts (range : IntegerRange) : (signedInteger range).Counts :=
  Numeral.counts (numeral_of_sign rfl (fun _ _ _ => sign_of_sign) rfl rfl spells_digit)

theorem unsignedInteger_counts (range : IntegerRange) : (unsignedInteger range).Counts :=
  Numeral.counts (numeral_of_digits rfl rfl ⟨trivial, spells_digit⟩)

end Marks

end Pattern

end ODataLiteral
