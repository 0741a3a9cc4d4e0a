import Mathlib.Data.Nat.Digits.Defs
import ODataLiteral.Proofs.Geo.Soundness
import ODataLiteral.Proofs.Literal.Yields
import ODataLiteral.Proofs.Rule.Lexeme

/-! Integers are read exactly where a numeral of few enough digits stands whose value is in the range of the type.
The value is that of the digits by their places, and the reader computes it without running over. -/
namespace ODataLiteral

open Abnf (Begins Derives)
open Pattern

/-- A type of integers as it is documented: how many digits a numeral of it may have, whether a sign may stand in front
of them, and its least and greatest value. -/
structure IntegerType where
  rule : Rule
  type : EdmType
  digits : Nat
  signed : Bool
  least : Int
  greatest : Int

namespace Bytes

/-- The value of decimal digits by their places. -/
def positional (digits : Bytes) : Nat :=
  Nat.ofDigits 10 (digits.reverse.map fun octet => octet.toNat - '0'.toNat)

/-- The integer that a sign and digits denote. Only a minus sign makes it negative. -/
def denoted (sign digits : Bytes) : Int :=
  if sign = ['-'.toUInt8] then -(positional digits : Int) else positional digits

end Bytes

namespace IntegerType

/-- A sign, if the type has one, and digits, from one offset of a source to another. -/
structure Numeral (integer : IntegerType) (source : Bytes) (offset stop : Nat) (sign digits : Bytes) : Prop where
  inside : stop ≤ source.length
  octets : source.slice offset stop = sign ++ digits
  signs : sign = [] ∨ integer.signed = true ∧ Derives Abnf.sign sign
  enough : 1 ≤ digits.length
  few : digits.length ≤ integer.digits
  every : ∀ octet ∈ digits, Octet.isDigit octet = true

/-- The range of the type, as its rule is given it. -/
def range (integer : IntegerType) : IntegerRange where
  digits := integer.digits
  least := integer.least
  greatest := integer.greatest

/-- What may stand in front of the digits. -/
def leading (integer : IntegerType) : Pattern :=
  if integer.signed then optional Pattern.sign else .empty

/-- A type whose rule is the one that its documentation describes. Its numerals are short enough for 64 bits. -/
structure Documents (integer : IntegerType) : Prop where
  rule : integer.rule =
    .lexeme .literal (.integer integer.type integer.range) (Pattern.integer integer.leading integer.range)
  short : integer.digits ≤ 19

end IntegerType

section Value

theorem positional_cons (octet : UInt8) (digits : Bytes) :
    Bytes.positional (octet :: digits) =
      Bytes.positional digits + 10 ^ digits.length * (octet.toNat - '0'.toNat) := by
  rw [Bytes.positional, List.map_reverse, List.map_cons, Nat.ofDigits_reverse_cons, List.length_map, ← List.map_reverse]
  rfl

/-- Taking digits up one by one gives their value by places, after what was there before. -/
theorem foldl_extendNumeral_plain {digits : Bytes} (every : ∀ octet ∈ digits, Octet.isDigit octet = true)
    (value : Nat) : (digits.map UriChar.plain).foldl Text.extendNumeral value =
      value * 10 ^ digits.length + Bytes.positional digits := by
  induction digits generalizing value with
  | nil => simp [Bytes.positional]
  | cons octet rest ih =>
    obtain ⟨digit, every⟩ := List.forall_mem_cons.mp every
    obtain ⟨_, _, same⟩ := Octet.digit_le digit
    rw [List.map_cons, List.foldl_cons, ih every, Text.extendNumeral, if_pos digit, same, positional_cons,
      List.length_cons]
    ring

theorem natural_plain {digits : Bytes} (every : ∀ octet ∈ digits, Octet.isDigit octet = true) :
    Text.natural (digits.map UriChar.plain) = Bytes.positional digits := by
  rw [Text.natural, foldl_extendNumeral_plain every, Nat.zero_mul, Nat.zero_add]

/-- An accumulator of 64 bits holds every value of nineteen digits, and every value on the way to it. -/
theorem numeral_eq_positional {digits : Bytes} (every : ∀ octet ∈ digits, Octet.isDigit octet = true)
    (few : digits.length ≤ 19) : Checked.numeral 64 digits = .ok (Bytes.positional digits) := by
  have row : ∀ character ∈ digits.map UriChar.plain, character.isDigit = true := List.forall_mem_map.mpr every
  have room : (0 + 1) * Nat.pow 10 (digits.map UriChar.plain).length ≤ Nat.pow 2 64 := by
    rw [List.length_map, Nat.zero_add, Nat.one_mul]
    exact Nat.le_trans (Nat.pow_le_pow_right (by decide) few) (by decide)
  have counted := Checked.numeral_of_digits row 0 room
  rw [Text.bytes_plain] at counted
  rw [Checked.numeral, counted, ← natural_plain every]
  rfl

end Value

section Text

variable {octets digits : Bytes}

theorem Abnf.derives_sign_iff : Derives Abnf.sign octets ↔
    ∃ character : UriChar, character.isSign = true ∧ character.Legible ∧ octets = character.bytes := by
  have signs : Abnf.sign = Abnf.character UriChar.isSign := by
    rw [Abnf.sign, add_comm, Abnf.mark_eq, Abnf.raw, Abnf.character_add]
    rfl
  rw [signs, Abnf.derives_character_iff]

theorem Text.ofBytes_digits (every : ∀ octet ∈ digits, Octet.isDigit octet = true) :
    Text.ofBytes digits = digits.map UriChar.plain := by
  have legible : Text.Legible (digits.map UriChar.plain) := by
    refine Text.legible_plain fun percent => ?_
    cases every _ percent
  rw [← Text.ofBytes_bytes legible, Text.bytes_plain]

/-- Without a sign, the numeral begins with a digit, which is no minus sign. -/
theorem Text.integer_digits (every : ∀ octet ∈ digits, Octet.isDigit octet = true) :
    Text.integer (digits.map UriChar.plain) = Bytes.denoted [] digits := by
  have minus : List.head? (digits.map UriChar.plain) ≠ some (.plain '-'.toUInt8) := by
    intro first
    obtain ⟨octet, head, same⟩ := Option.map_eq_some_iff.mp (List.head?_map.symm.trans first)
    have digit := every octet (List.mem_of_mem_head? head)
    rw [UriChar.plain.inj same] at digit
    cases digit
  rw [Text.integer, Text.withSign, if_neg minus, natural_plain every, Bytes.denoted, if_neg nofun]

theorem Text.integer_signed {sign : UriChar} (isSign : sign.isSign = true) (legible : sign.Legible)
    (every : ∀ octet ∈ digits, Octet.isDigit octet = true) :
    Text.integer (sign :: digits.map UriChar.plain) = Bytes.denoted sign.bytes digits := by
  have minus : List.head? (sign :: digits.map UriChar.plain) = some (.plain '-'.toUInt8) ↔
      sign.bytes = ['-'.toUInt8] := by
    rw [List.head?_cons, Option.some.injEq]
    constructor
    · rintro rfl
      rfl
    · intro same
      have back := Text.ofBytes_character_append legible []
      rw [List.append_nil, same] at back
      exact (List.cons.inj back).1.symm
  have passed : Text.natural (sign :: digits.map UriChar.plain) = Bytes.positional digits := by
    have none : ∀ character ∈ ([sign] : Text), character.isDigit = false := by
      simpa using UriChar.isDigit_of_isSign isSign
    rw [← natural_plain every, Text.natural, ← List.singleton_append, List.foldl_append,
      Text.foldl_extendNumeral_of_no_digits 0 none, Text.natural]
  rw [Text.integer, Text.withSign, passed, Bytes.denoted]
  simp only [minus]

end Text

namespace IntegerType

variable {integer : IntegerType} {source : Bytes} {offset stop : Nat} {sign digits octets : Bytes}

theorem derives_leading_iff : Derives integer.leading.language octets ↔
    octets = [] ∨ integer.signed = true ∧ Derives Abnf.sign octets := by
  cases signed : integer.signed with
  | true =>
    have optional : integer.leading.language = Abnf.optional Abnf.sign := by
      rw [leading, signed, ← Grammar.language_sign]
      rfl
    rw [optional, Abnf.derives_optional_iff]
    simp
  | false =>
    have nothing : integer.leading.language = 1 := by
      rw [leading, signed]
      rfl
    rw [nothing]
    simp [Derives, Language.mem_one, Text.Legible, Text.bytes, eq_comm]

theorem exists_numeral_iff : (∃ sign digits, integer.Numeral source offset stop sign digits) ↔
    stop ≤ source.length ∧
      Derives (Pattern.integer integer.leading integer.range).language (source.slice offset stop) := by
  have parts : (Pattern.integer integer.leading integer.range).language =
      integer.leading.language * Abnf.repeated 1 (some integer.digits) (Abnf.raw Octet.isDigit) * 1 := rfl
  have clean : Octet.isDigit UriChar.percent = false := rfl
  simp only [parts, mul_one, Abnf.derives_mul_iff, derives_leading_iff, Abnf.derives_repeated_raw_iff clean]
  constructor
  · rintro ⟨sign, digits, inside, octets, signs, enough, few, every⟩
    refine ⟨inside, sign, digits, signs, ⟨enough, ?_, every⟩, octets⟩
    rintro _ ⟨⟩
    exact few
  · rintro ⟨inside, sign, digits, signs, ⟨enough, few, every⟩, octets⟩
    exact ⟨sign, digits, inside, octets, signs, enough, few _ rfl, every⟩

/-- The characters of a numeral denote what its sign and its digits do. -/
theorem Numeral.integer_eq (numeral : integer.Numeral source offset stop sign digits) :
    Text.integer (Text.ofBytes (source.slice offset stop)) = Bytes.denoted sign digits := by
  rw [numeral.octets]
  rcases numeral.signs with rfl | ⟨_, signs⟩
  · rw [List.nil_append, Text.ofBytes_digits numeral.every, Text.integer_digits numeral.every]
  · obtain ⟨character, isSign, legible, rfl⟩ := Abnf.derives_sign_iff.mp signs
    rw [Text.ofBytes_character_append legible, Text.ofBytes_digits numeral.every,
      Text.integer_signed isSign legible numeral.every]

/-- A numeral of a type is one of every type that allows as many digits, and a sign where the first does. -/
theorem Numeral.widen {wide : IntegerType} (numeral : integer.Numeral source offset stop sign digits)
    (signs : integer.signed = true → wide.signed = true) (more : integer.digits ≤ wide.digits) :
    wide.Numeral source offset stop sign digits where
  inside := numeral.inside
  octets := numeral.octets
  signs := numeral.signs.imp_right fun signed => ⟨signs signed.1, signed.2⟩
  enough := numeral.enough
  few := Nat.le_trans numeral.few more
  every := numeral.every

theorem leading_forms (integer : IntegerType) :
    integer.leading = optional Pattern.sign ∨ integer.leading = .empty := by
  unfold leading
  split
  · exact .inl rfl
  · exact .inr rfl

theorem leading_regular (integer : IntegerType) :
    (Pattern.integer integer.leading integer.range).steady = true ∧
      (Pattern.integer integer.leading integer.range).nullable = false ∧
      (Pattern.integer integer.leading integer.range).clean = true := by
  rcases integer.leading_forms with same | same
  all_goals rw [same]
  all_goals exact ⟨rfl, rfl, rfl⟩

theorem Documents.fits (documents : integer.Documents) :
    Meaning.Fits (.integer integer.type integer.range) (Pattern.integer integer.leading integer.range) := by
  rcases integer.leading_forms with same | same
  · rw [same]
    exact Meaning.integer_fits rfl Grammar.sign_spells documents.short
  · rw [same]
    exact Meaning.integer_fits rfl trivial documents.short

theorem tokenAt?_iff (documents : integer.Documents) {token : Token} :
    integer.rule.tokenAt? source offset = some token ↔
      ∃ stop sign digits, integer.Numeral source offset stop sign digits ∧ ¬ Begins Abnf.digit (source.drop stop) ∧
        integer.least ≤ Bytes.denoted sign digits ∧ Bytes.denoted sign digits ≤ integer.greatest ∧
        token = ⟨.literal, ⟨offset, stop⟩, .typed integer.type⟩ := by
  obtain ⟨steady, filled, clean⟩ := integer.leading_regular
  have exactly := (Grammar.integer_takes integer.leading_forms integer.range).exactly steady
    fun _ _ _ => Grammar.head_of_integer
  have ahead (stop : Nat) : ¬ Begins Abnf.digit (source.drop stop) ↔
      HeadIn (fun character => !character.isDigit) (Text.ofBytes (source.drop stop)) :=
    not_begins_character_iff rfl
  have lexeme : (Rule.lexeme .literal (.integer integer.type integer.range)
      (Pattern.integer integer.leading integer.range)).steady = true := by
    rw [Rule.steady, steady, filled]
    rfl
  rw [documents.rule, Rule.tokenAt?_lexeme_iff exactly lexeme clean documents.fits]
  simp only [ahead]
  constructor
  · rintro ⟨stop, value, inside, derived, next, known, rfl⟩
    obtain ⟨sign, digits, numeral⟩ := exists_numeral_iff.mpr ⟨inside, derived⟩
    rw [Meaning.value?, numeral.integer_eq] at known
    split at known
    · rename_i holds
      cases known
      rw [IntegerRange.holds, Bool.and_eq_true, decide_eq_true_eq, decide_eq_true_eq] at holds
      exact ⟨stop, sign, digits, numeral, next, holds.1, holds.2, rfl⟩
    · cases known
  · rintro ⟨stop, sign, digits, numeral, next, low, high, rfl⟩
    obtain ⟨inside, derived⟩ := exists_numeral_iff.mp ⟨_, _, numeral⟩
    refine ⟨stop, _, inside, derived, next, ?_, rfl⟩
    have holds : integer.range.holds (Bytes.denoted sign digits) = true := by
      rw [IntegerRange.holds, Bool.and_eq_true, decide_eq_true_eq, decide_eq_true_eq]
      exact ⟨low, high⟩
    rw [Meaning.value?, numeral.integer_eq, if_pos holds]

/-- A type with all that another type has. -/
structure Within (narrow wide : IntegerType) : Prop where
  signs : narrow.signed = true → wide.signed = true
  digits : narrow.digits ≤ wide.digits
  least : wide.least ≤ narrow.least
  greatest : narrow.greatest ≤ wide.greatest

theorem Within.tokenAt? {narrow wide : IntegerType} (within : narrow.Within wide) (documents : narrow.Documents)
    (documentsToo : wide.Documents) {token : Token} (found : narrow.rule.tokenAt? source offset = some token) :
    ∃ other, wide.rule.tokenAt? source offset = some other ∧ other.span = token.span := by
  obtain ⟨stop, sign, digits, numeral, next, low, high, rfl⟩ := (tokenAt?_iff documents).mp found
  refine ⟨_, (tokenAt?_iff documentsToo).mpr ⟨stop, sign, digits, ?_, next, ?_, ?_, rfl⟩, rfl⟩
  · exact numeral.widen within.signs within.digits
  · exact Int.le_trans within.least low
  · exact Int.le_trans high within.greatest

def sbyte : IntegerType := ⟨Grammar.sbyte, .sbyte, 3, true, -128, 127⟩

def byte : IntegerType := ⟨Grammar.byte, .byte, 3, false, 0, 255⟩

def int16 : IntegerType := ⟨Grammar.int16, .int16, 5, true, -32768, 32767⟩

def int32 : IntegerType := ⟨Grammar.int32, .int32, 10, true, -2147483648, 2147483647⟩

def int64 : IntegerType := ⟨Grammar.int64, .int64, 19, true, -9223372036854775808, 9223372036854775807⟩

def all : List IntegerType := [sbyte, byte, int16, int32, int64]

/-- Each type with the next wider one. -/
def widenings : List (IntegerType × IntegerType) :=
  [(sbyte, int16), (byte, int16), (int16, int32), (int32, int64)]

theorem all_document : ∀ integer ∈ all, integer.Documents := by
  simp only [all, List.forall_mem_cons]
  exact ⟨⟨rfl, by decide⟩, ⟨rfl, by decide⟩, ⟨rfl, by decide⟩, ⟨rfl, by decide⟩, ⟨rfl, by decide⟩,
    List.forall_mem_nil _⟩

theorem widenings_listed : ∀ pair ∈ widenings, pair.1 ∈ all ∧ pair.2 ∈ all := by
  simp [widenings, all]

theorem widenings_within : ∀ pair ∈ widenings, pair.1.Within pair.2 := by
  simp only [widenings, List.forall_mem_cons]
  refine ⟨?_, ?_, ?_, ?_, List.forall_mem_nil _⟩
  all_goals exact ⟨by decide, by decide, by decide, by decide⟩

end IntegerType

namespace Grammar

/-- An integer is read exactly where a numeral of its type stands that no digit follows and whose value is in range.
The accumulator of 64 bits takes up every such numeral without running over, and a narrower integer is always one of
the wider types. -/
theorem integers_exact (source : Bytes) (offset : Nat) :
    (∀ integer ∈ IntegerType.all,
      (∀ stop, (∃ token, integer.rule.tokenAt? source offset = some token ∧ token.span.stop = stop) ↔
        ∃ sign digits, integer.Numeral source offset stop sign digits ∧ ¬ Begins Abnf.digit (source.drop stop) ∧
          integer.least ≤ Bytes.denoted sign digits ∧ Bytes.denoted sign digits ≤ integer.greatest) ∧
      (∀ token, integer.rule.tokenAt? source offset = some token →
        token.kind = .literal ∧ token.span.start = offset ∧ token.value = .typed integer.type) ∧
      ∀ stop sign digits, integer.Numeral source offset stop sign digits →
        Checked.numeral 64 digits = .ok (Bytes.positional digits)) ∧
    ∀ pair ∈ IntegerType.widenings, ∀ token, pair.1.rule.tokenAt? source offset = some token →
      ∃ other, pair.2.rule.tokenAt? source offset = some other ∧ other.span = token.span := by
  constructor
  · intro integer member
    have documents := IntegerType.all_document integer member
    refine ⟨fun stop => ⟨?_, ?_⟩, ?_, ?_⟩
    · rintro ⟨token, found, rfl⟩
      obtain ⟨_, sign, digits, numeral, next, low, high, rfl⟩ := (IntegerType.tokenAt?_iff documents).mp found
      exact ⟨sign, digits, numeral, next, low, high⟩
    · rintro ⟨sign, digits, numeral, next, low, high⟩
      exact ⟨_, (IntegerType.tokenAt?_iff documents).mpr ⟨stop, sign, digits, numeral, next, low, high, rfl⟩, rfl⟩
    · intro token found
      obtain ⟨_, _, _, _, _, _, _, rfl⟩ := (IntegerType.tokenAt?_iff documents).mp found
      exact ⟨rfl, rfl, rfl⟩
    · intro stop sign digits numeral
      exact numeral_eq_positional numeral.every (Nat.le_trans numeral.few documents.short)
  · intro pair member token found
    obtain ⟨one, two⟩ := IntegerType.widenings_listed pair member
    have within := IntegerType.widenings_within pair member
    exact within.tokenAt? (IntegerType.all_document _ one) (IntegerType.all_document _ two) found

/-- `-0128,` holds the least value of a signed octet with a leading zero too many for it, but not for wider types. -/
theorem integers_exact_leading_zero :
    IntegerType.int16 ∈ IntegerType.all ∧ (IntegerType.int16, IntegerType.int32) ∈ IntegerType.widenings ∧
      IntegerType.int16.Numeral [0x2D, 0x30, 0x31, 0x32, 0x38, 0x2C] 0 5 [0x2D] [0x30, 0x31, 0x32, 0x38] ∧
      Checked.numeral 64 [0x30, 0x31, 0x32, 0x38] = .ok (Bytes.positional [0x30, 0x31, 0x32, 0x38]) ∧
      (∃ token, int16.tokenAt? [0x2D, 0x30, 0x31, 0x32, 0x38, 0x2C] 0 = some token ∧ token.span.stop = 5 ∧
        token.value = .typed .int16) ∧
      (∃ token, int32.tokenAt? [0x2D, 0x30, 0x31, 0x32, 0x38, 0x2C] 0 = some token ∧ token.span.stop = 5) := by
  have listed : IntegerType.int16 ∈ IntegerType.all := by simp [IntegerType.all]
  have widening : (IntegerType.int16, IntegerType.int32) ∈ IntegerType.widenings := by simp [IntegerType.widenings]
  have minus : Derives Abnf.sign [0x2D] := Abnf.derives_sign_iff.mpr ⟨.plain 0x2D, by decide, by decide, rfl⟩
  have numeral : IntegerType.int16.Numeral [0x2D, 0x30, 0x31, 0x32, 0x38, 0x2C] 0 5 [0x2D]
      [0x30, 0x31, 0x32, 0x38] :=
    ⟨by decide, by decide, .inr ⟨rfl, minus⟩, by decide, by decide, by decide +kernel⟩
  have next : ¬ Begins Abnf.digit [0x2C] := by
    refine (not_begins_character_iff rfl).mpr ?_
    rintro character ⟨⟩
    rfl
  obtain ⟨each, wider⟩ := integers_exact [0x2D, 0x30, 0x31, 0x32, 0x38, 0x2C] 0
  obtain ⟨exists_iff, shape, counted⟩ := each IntegerType.int16 listed
  obtain ⟨token, found, ends⟩ := (exists_iff 5).mpr ⟨_, _, numeral, next, by decide, by decide⟩
  obtain ⟨other, foundToo, same⟩ := wider _ widening token found
  exact ⟨listed, widening, numeral, counted 5 _ _ numeral, ⟨token, found, ends, (shape token found).2.2⟩,
    ⟨other, foundToo, by rw [same, ends]⟩⟩

end Grammar

end ODataLiteral
