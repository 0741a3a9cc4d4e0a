import ODataLiteral.Grammar
import ODataLiteral.Proofs.Pattern.Shape
import ODataLiteral.Proofs.Rule.Parse

/-! What a lexeme means, read from the octets of its source with every check made on the way.
No check fails on a text that the pattern of the lexeme takes: the octets that are asked for are there,
and a numeral is too short to be too large for the bits that hold it. -/
namespace ODataLiteral

namespace Cursor

/-- What is left at a place is what the source has after it. -/
def Within (length : Nat) (cursor : Cursor) : Prop :=
  cursor.rest.length = length - cursor.offset

theorem ofSource_within (source : Bytes) (offset : Nat) :
    (ofSource source offset).Within source.length := by
  simp only [Within, ofSource, List.length_drop]

/-- A text stands at a place, as a whole inside a source of some length. -/
structure Holds (cursor : Cursor) (length : Nat) (text : Text) : Prop where
  rest : ∃ after, cursor.rest = text.bytes ++ after
  inside : cursor.offset + text.width ≤ length

theorem slice_of_holds (before middle after : Text) {cursor : Cursor} {length : Nat}
    (holds : cursor.Holds length (before ++ middle ++ after)) :
    cursor.slice length before.width (cursor.offset + before.width + middle.width) =
      .ok middle.bytes := by
  obtain ⟨behind, rest⟩ := holds.rest
  have inside := holds.inside
  rw [Text.width_append, Text.width_append] at inside
  have room : cursor.offset + before.width ≤ cursor.offset + before.width + middle.width :=
    Nat.le_add_right _ _
  have roomToo : cursor.offset + before.width + middle.width ≤ length := by omega
  have wide := Text.length_bytes before
  have wideToo := Text.length_bytes middle
  simp only [slice, decide_eq_true room, decide_eq_true roomToo, Bool.and_self, if_true]
  congr 1
  have gap : cursor.offset + before.width + middle.width - (cursor.offset + before.width) =
      middle.bytes.length := by omega
  rw [gap, rest, Text.bytes_append, Text.bytes_append, List.append_assoc, List.append_assoc,
    ← wide, List.drop_left, List.take_left]

theorem slice_whole_of_holds {cursor : Cursor} {length : Nat} {text : Text} (holds : cursor.Holds length text) :
    cursor.slice length 0 (cursor.offset + text.width) = .ok text.bytes :=
  slice_of_holds [] text [] (by simpa using holds)

end Cursor

section Numeral

theorem Octet.digit_le {octet : UInt8} (digit : isDigit octet = true) :
    '0'.toNat ≤ octet.toNat ∧ octet.toNat - '0'.toNat ≤ 9 ∧
      (octet - '0'.toUInt8).toNat = octet.toNat - '0'.toNat := by
  simp only [isDigit, between, Bool.and_eq_true, decide_eq_true_eq] at digit
  have low : (48 : Nat) ≤ octet.toNat := UInt8.le_iff_toNat_le.mp digit.1
  have high : octet.toNat ≤ 57 := UInt8.le_iff_toNat_le.mp digit.2
  refine ⟨low, ?_, UInt8.toNat_sub_of_le _ _ digit.1⟩
  show octet.toNat - 48 ≤ 9
  omega

theorem Checked.extendNumeral_of_digit {bits value : Nat} {octet : UInt8}
    (digit : Octet.isDigit octet = true)
    (room : 10 * value + (octet.toNat - '0'.toNat) < Nat.pow 2 bits) :
    extendNumeral bits value octet = .ok (Text.extendNumeral value (.plain octet)) := by
  obtain ⟨low, _, same⟩ := Octet.digit_le digit
  have subtracted : subtract octet.toNat '0'.toNat = .ok (octet.toNat - '0'.toNat) := if_pos low
  have shifted : fits bits (10 * value) = .ok (10 * value) := if_pos (by omega)
  have summed : fits bits (10 * value + (octet.toNat - '0'.toNat)) =
      .ok (10 * value + (octet.toNat - '0'.toNat)) := if_pos room
  have steps : extendNumeral bits value octet = (do
      let digit ← subtract octet.toNat '0'.toNat
      let shifted ← fits bits (10 * value)
      fits bits (shifted + digit)) := rfl
  rw [steps, subtracted, shifted]
  simp only [Text.extendNumeral, digit, if_true, same]
  exact summed

/-- A numeral of few enough digits fits, and so does every value on the way to it. -/
theorem Checked.numeral_of_digits {bits : Nat} {digits : Text}
    (all : ∀ character ∈ digits, character.isDigit = true) (value : Nat)
    (room : (value + 1) * Nat.pow 10 digits.length ≤ Nat.pow 2 bits) :
    digits.bytes.foldlM (extendNumeral bits) value =
      (.ok (digits.foldl Text.extendNumeral value) : Except Fault Nat) := by
  induction digits generalizing value with
  | nil => rfl
  | cons character rest ih =>
    have digit := all character List.mem_cons_self
    cases character with
    | encoded high low => cases digit
    | plain octet =>
      have digit : Octet.isDigit octet = true := digit
      obtain ⟨_, high, same⟩ := Octet.digit_le digit
      have next : Text.extendNumeral value (.plain octet) =
          10 * value + (octet.toNat - '0'.toNat) := by
        rw [Text.extendNumeral, if_pos digit, same]
      have power : 0 < 10 ^ rest.length := Nat.pow_pos (by decide)
      have grown : (10 * value + (octet.toNat - '0'.toNat) + 1) * 10 ^ rest.length ≤ 2 ^ bits :=
        calc (10 * value + (octet.toNat - '0'.toNat) + 1) * 10 ^ rest.length
            ≤ (10 * (value + 1)) * 10 ^ rest.length := Nat.mul_le_mul_right _ (by omega)
          _ = (value + 1) * 10 ^ (rest.length + 1) := by
            rw [Nat.pow_succ', Nat.mul_comm 10, Nat.mul_assoc]
          _ ≤ 2 ^ bits := room
      have fits : 10 * value + (octet.toNat - '0'.toNat) < 2 ^ bits :=
        Nat.lt_of_lt_of_le (Nat.lt_succ_self _)
          (Nat.le_trans (Nat.le_mul_of_pos_right _ power) grown)
      have step := Checked.extendNumeral_of_digit digit fits
      have others := ih (fun other member => all other (List.mem_cons_of_mem _ member))
        (Text.extendNumeral value (.plain octet)) (by rw [next]; exact grown)
      rw [Text.bytes_cons, UriChar.bytes, List.singleton_append, List.foldlM_cons, step]
      exact others

/-- At most so many digits, all of them in a row. -/
def Text.Numeral (count : Nat) (text : Text) : Prop :=
  ∃ lead digits tail : Text, text = lead ++ digits ++ tail ∧ digits ≠ [] ∧ digits.length ≤ count ∧
    (∀ character ∈ lead, character.isDigit = false) ∧
    (∀ character ∈ digits, character.isDigit = true) ∧
    (∀ character ∈ tail, character.isDigit = false)

theorem Text.foldl_extendNumeral_of_no_digits {text : Text} (value : Nat)
    (none : ∀ character ∈ text, character.isDigit = false) :
    text.foldl extendNumeral value = value := by
  induction text with
  | nil => rfl
  | cons character rest ih =>
    have other := none character List.mem_cons_self
    have kept : extendNumeral value character = value := by
      cases character with
      | plain octet =>
        have other : Octet.isDigit octet = false := other
        simp [extendNumeral, other]
      | encoded high low => rfl
    rw [List.foldl_cons, kept]
    exact ih fun other member => none other (List.mem_cons_of_mem _ member)

theorem Text.foldl_extendNumeral_lt {digits : Text} (all : ∀ character ∈ digits, character.isDigit = true)
    (value : Nat) : digits.foldl extendNumeral value < (value + 1) * Nat.pow 10 digits.length := by
  induction digits generalizing value with
  | nil => simp
  | cons character rest ih =>
    have digit := all character List.mem_cons_self
    cases character with
    | encoded high low => cases digit
    | plain octet =>
      have digit : Octet.isDigit octet = true := digit
      obtain ⟨_, high, same⟩ := Octet.digit_le digit
      have next : extendNumeral value (.plain octet) + 1 ≤ (value + 1) * 10 := by
        rw [extendNumeral, if_pos digit, same]
        omega
      calc rest.foldl extendNumeral (extendNumeral value (.plain octet))
          < (extendNumeral value (.plain octet) + 1) * Nat.pow 10 rest.length :=
            ih (fun other member => all other (List.mem_cons_of_mem _ member)) _
        _ ≤ ((value + 1) * 10) * Nat.pow 10 rest.length := Nat.mul_le_mul_right _ next
        _ = (value + 1) * Nat.pow 10 (rest.length + 1) := by
          rw [Nat.mul_assoc, Nat.mul_comm 10]
          rfl

/-- A numeral denotes less than a one with as many zeros as it may have digits. -/
theorem Text.natural_lt_of_numeral {count : Nat} {text : Text} (numeral : text.Numeral count) :
    text.natural < Nat.pow 10 count := by
  obtain ⟨lead, digits, tail, rfl, _, few, before, row, behind⟩ := numeral
  have value : Text.natural (lead ++ digits ++ tail) = digits.foldl extendNumeral 0 := by
    rw [natural, List.foldl_append, List.foldl_append, foldl_extendNumeral_of_no_digits _ before,
      foldl_extendNumeral_of_no_digits _ behind]
  calc Text.natural (lead ++ digits ++ tail) < (0 + 1) * Nat.pow 10 digits.length := by
        rw [value]
        exact foldl_extendNumeral_lt row 0
    _ ≤ Nat.pow 10 count := by
      rw [Nat.zero_add, Nat.one_mul]
      exact Nat.pow_le_pow_right (by decide) few

theorem Meaning.magnitude_of_numeral (bits : Nat) {count length : Nat} {start : Cursor} {text : Text}
    (room : Nat.pow 10 count ≤ Nat.pow 2 bits) (numeral : text.Numeral count) (holds : start.Holds length text) :
    magnitude bits length start text = .ok text.natural := by
  obtain ⟨lead, digits, tail, rfl, filled, few, before, row, behind⟩ := numeral
  have tailRow : tail.takeWhile (·.isDigit) = [] := by
    cases tail with
    | nil => rfl
    | cons character rest => exact List.takeWhile_cons_of_neg (by simp [behind])
  obtain ⟨first, others, rfl⟩ := List.exists_cons_of_ne_nil filled
  have taken : (lead ++ (first :: others) ++ tail).takeWhile (!·.isDigit) = lead := by
    rw [List.append_assoc, List.takeWhile_append_of_pos (by simpa using before), List.cons_append,
      List.takeWhile_cons_of_neg (by simp [row]), List.append_nil]
  have dropped : (lead ++ (first :: others) ++ tail).dropWhile (!·.isDigit) =
      first :: others ++ tail := by
    rw [List.append_assoc, List.dropWhile_append_of_pos (by simpa using before), List.cons_append,
      List.dropWhile_cons_of_neg (by simp [row])]
  have digits : (first :: others ++ tail).takeWhile (·.isDigit) = first :: others := by
    rw [List.takeWhile_append_of_pos row, tailRow, List.append_nil]
  have fits : (0 + 1) * 10 ^ (first :: others).length ≤ 2 ^ bits := by
    rw [Nat.zero_add, Nat.one_mul]
    exact Nat.le_trans (Nat.pow_le_pow_right (by decide) few) room
  have value : Text.natural (lead ++ (first :: others) ++ tail) =
      (first :: others).foldl Text.extendNumeral 0 := by
    rw [Text.natural, List.foldl_append, List.foldl_append,
      Text.foldl_extendNumeral_of_no_digits _ before, Text.foldl_extendNumeral_of_no_digits _ behind]
  rw [magnitude]
  simp only [taken, dropped, digits]
  rw [Cursor.slice_of_holds _ _ _ holds, value]
  exact Checked.numeral_of_digits row 0 fits

end Numeral

namespace Meaning

/-- What a text must be like for its meaning to be read without a fault. -/
def Readable : Meaning → Text → Prop
  | integer _ _, text => text.Numeral 19
  | srid, text => text.Numeral 5
  | jsonString, text => 2 ≤ text.length
  | jsonNumber, text =>
    (Utf8.decode? text.bytes).bind Binary64.ofString? = some (Binary64.ofDecimal (Decimal.ofText text))
  | null, _ | typed _, _ | name, _ | term, _ | jsonBoolean _, _ | jsonNull, _ => True

/-- A meaning that can be read of every text that a pattern takes. -/
def Fits (meaning : Meaning) (pattern : Pattern) : Prop :=
  ∀ text taken rest, pattern.split text = some (taken, rest) → meaning.Readable taken

/-- The checks pass, and the meaning is that of the text alone. -/
theorem read?_of_readable {meaning : Meaning} {length : Nat} {start : Cursor} {text : Text}
    (readable : meaning.Readable text) (holds : start.Holds length text) :
    meaning.read? length start text = .ok (meaning.value? text) := by
  cases meaning with
  | null | typed _ | jsonBoolean _ | jsonNull => rfl
  | integer type range =>
    have magnitude := magnitude_of_numeral 64 (by decide) readable holds
    rw [read?, magnitude]
    rfl
  | srid =>
    have magnitude := magnitude_of_numeral 32 (by decide) readable holds
    rw [read?, magnitude]
    rfl
  | name =>
    rw [read?, Cursor.slice_whole_of_holds holds]
    rfl
  | term =>
    have whole : text.take 1 ++ text.tail ++ [] = text := by
      rw [List.append_nil, ← List.drop_one, List.take_append_drop]
    have octets := Cursor.slice_of_holds _ _ _ (whole.symm ▸ holds)
    have wide := congrArg Text.width whole
    rw [List.append_nil, Text.width_append] at wide
    rw [Nat.add_assoc, wide] at octets
    rw [read?, octets]
    rfl
  | jsonString =>
    have long : 2 ≤ text.length := readable
    obtain ⟨first, tail, rfl⟩ := List.exists_cons_of_length_pos (Nat.lt_of_lt_of_le Nat.two_pos long)
    have filled : tail ≠ [] := by
      rintro rfl
      simp at long
    have whole : (first :: tail).take 1 ++ tail.dropLast ++ [tail.getLast filled] = first :: tail := by
      simp [List.dropLast_concat_getLast filled]
    have octets := Cursor.slice_of_holds _ _ _ (whole.symm ▸ holds)
    have inner : (first :: tail).dropLast = (first :: tail).take 1 ++ tail.dropLast := by
      rw [List.dropLast_cons_of_ne_nil filled]
      rfl
    rw [Nat.add_assoc, ← Text.width_append, ← inner] at octets
    rw [read?, octets]
    rfl
  | jsonNumber =>
    have number : (Utf8.decode? text.bytes).bind Binary64.ofString? =
        some (Binary64.ofDecimal (Decimal.ofText text)) := readable
    rw [read?, Cursor.slice_whole_of_holds holds, value?]
    show Except.ok (((Utf8.decode? text.bytes).bind Binary64.ofString?).map _) = _
    rw [number]
    rfl

end Meaning

end ODataLiteral
