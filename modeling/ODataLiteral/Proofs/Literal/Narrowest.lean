import ODataLiteral.Proofs.Boundary
import ODataLiteral.Proofs.Literal.Floating
import ODataLiteral.Proofs.Literal.Integer

/-! Texts of digits with or without a sign, as primitive literals. No literal that is tried before the integers reads
such a text, for all of them have a mark after the digits, and no later one begins like it. So the first integer type
that has room for the digits and for their value is the type of the literal. -/
namespace ODataLiteral

open Abnf (Begins Derives)
open Pattern (HeadIn)

/-- Digits with or without a sign before them. -/
structure Bytes.IsNumeral (sign digits : Bytes) : Prop where
  signs : sign = [] ∨ Derives Abnf.sign sign
  filled : digits ≠ []
  every : ∀ octet ∈ digits, Octet.isDigit octet = true

/-- Whether a type has room for a numeral: it allows the sign and as many digits, and its range has the value. -/
def IntegerType.admits (integer : IntegerType) (sign digits : Bytes) : Bool :=
  (sign.isEmpty || integer.signed) && decide (digits.length ≤ integer.digits) &&
    decide (integer.least ≤ Bytes.denoted sign digits) && decide (Bytes.denoted sign digits ≤ integer.greatest)

theorem IntegerType.admits_iff {integer : IntegerType} {sign digits : Bytes} :
    integer.admits sign digits = true ↔ (sign = [] ∨ integer.signed = true) ∧ digits.length ≤ integer.digits ∧
      integer.least ≤ Bytes.denoted sign digits ∧ Bytes.denoted sign digits ≤ integer.greatest := by
  simp only [admits, Bool.and_eq_true, Bool.or_eq_true, List.isEmpty_iff, decide_eq_true_eq, and_assoc]

namespace Bytes.IsNumeral

variable {sign digits rest : Bytes}

/-- A numeral before other octets is decoded on its own. -/
theorem exists_text (numeral : IsNumeral sign digits) (rest : Bytes) :
    ∃ lead : Text, Text.Signs lead ∧ lead.bytes = sign ∧
      Text.ofBytes (sign ++ digits ++ rest) = lead ++ digits.map UriChar.plain ++ Text.ofBytes rest := by
  have legible : Text.Legible (digits.map UriChar.plain) := by
    refine Text.legible_plain fun percent => ?_
    cases numeral.every _ percent
  have behind : Text.ofBytes (digits ++ rest) = digits.map UriChar.plain ++ Text.ofBytes rest := by
    conv_lhs => rw [← Text.bytes_plain digits]
    exact Text.ofBytes_bytes_append legible rest
  rcases numeral.signs with rfl | signed
  · exact ⟨[], .inl rfl, rfl, behind⟩
  · obtain ⟨character, isSign, signLegible, rfl⟩ := Abnf.derives_sign_iff.mp signed
    refine ⟨[character], .inr ⟨character, rfl, isSign⟩, by simp [Text.bytes], ?_⟩
    rw [List.append_assoc, Text.ofBytes_character_append signLegible, behind]
    rfl

theorem isDigit_of_mem (numeral : IsNumeral sign digits) :
    ∀ character ∈ digits.map UriChar.plain, character.isDigit = true :=
  List.forall_mem_map.mpr numeral.every

theorem afterDigits (numeral : IsNumeral sign digits) (rest : Bytes) :
    Text.afterDigits (Text.ofBytes (sign ++ digits ++ rest)) = (Text.ofBytes rest).dropWhile (·.isDigit) := by
  obtain ⟨lead, signs, _, same⟩ := numeral.exists_text rest
  rw [same, Text.afterDigits_of_signs signs (by simpa using numeral.filled) numeral.isDigit_of_mem]

/-- The digits of a numeral are all that follows its sign, so there is one way to split it. -/
theorem unique (numeral : IsNumeral sign digits) {sign' digits' : Bytes} (other : IsNumeral sign' digits')
    (same : sign ++ digits = sign' ++ digits') : sign = sign' ∧ digits = digits' := by
  have bare {sign digits : Bytes} (numeral : IsNumeral sign digits) :
      Text.unsigned (Text.ofBytes (sign ++ digits)) = digits.map UriChar.plain := by
    obtain ⟨lead, signs, _, spelled⟩ := numeral.exists_text []
    rw [List.append_nil] at spelled
    rw [spelled, Text.unsigned_of_signs signs (by simpa using numeral.filled) numeral.isDigit_of_mem]
    exact List.append_nil _
  have digits_eq : digits.map UriChar.plain = digits'.map UriChar.plain := by rw [← bare numeral, same, bare other]
  obtain rfl : digits = digits' := by rw [← Text.bytes_plain digits, digits_eq, Text.bytes_plain]
  exact ⟨List.append_cancel_right same, rfl⟩

theorem head_numeral (numeral : IsNumeral sign digits) :
    HeadIn UriChar.isNumeralLead (Text.ofBytes (sign ++ digits)) := by
  obtain ⟨lead, signs, _, same⟩ := numeral.exists_text []
  rw [List.append_nil] at same
  rw [same]
  intro character first
  rcases signs with rfl | ⟨one, rfl, isSign⟩
  · obtain ⟨octet, others, rfl⟩ := List.exists_cons_of_ne_nil numeral.filled
    cases first
    exact Grammar.numeralLead_of_digit (numeral.every octet List.mem_cons_self)
  · cases first
    rw [UriChar.isNumeralLead, isSign, Bool.true_or]

theorem head (numeral : IsNumeral sign digits) : HeadIn UriChar.isFloatingLead (Text.ofBytes (sign ++ digits)) :=
  numeral.head_numeral.mono fun _ lead => by rw [UriChar.isFloatingLead, lead, Bool.true_or]

end Bytes.IsNumeral

open Bytes (IsNumeral)

namespace IntegerType

variable {integer : IntegerType} {source sign digits : Bytes} {offset stop : Nat}

theorem Numeral.isNumeral (numeral : integer.Numeral source offset stop sign digits) : IsNumeral sign digits :=
  ⟨numeral.signs.imp_right And.right, List.length_pos_iff.mp numeral.enough, numeral.every⟩

/-- An integer is read of a numeral that is the whole source as a whole, if its type has room for it. -/
theorem tokenAt?_isNumeral (documents : integer.Documents) (numeral : IsNumeral sign digits) :
    integer.rule.tokenAt? (sign ++ digits) 0 =
      if integer.admits sign digits then some ⟨.literal, ⟨0, (sign ++ digits).length⟩, .typed integer.type⟩
      else none := by
  have read (token : Token) : integer.rule.tokenAt? (sign ++ digits) 0 = some token ↔
      integer.admits sign digits = true ∧
        token = ⟨.literal, ⟨0, (sign ++ digits).length⟩, .typed integer.type⟩ := by
    rw [tokenAt?_iff documents, admits_iff]
    constructor
    · rintro ⟨stop, sign', digits', found, next, low, high, rfl⟩
      -- No digit follows, and nothing but digits could.
      have parts : sign ++ digits = sign' ++ digits' ++ (sign ++ digits).drop stop := by
        rw [← found.octets, Bytes.slice, List.drop_zero, List.take_append_drop]
      have left := numeral.afterDigits []
      rw [List.append_nil, parts, found.isNumeral.afterDigits] at left
      have stays : (Text.ofBytes ((sign ++ digits).drop stop)).dropWhile (·.isDigit) =
          Text.ofBytes ((sign ++ digits).drop stop) := by
        have here := (Pattern.not_begins_character_iff rfl).mp next
        cases tail : Text.ofBytes ((sign ++ digits).drop stop) with
        | nil => rfl
        | cons character others =>
          rw [tail] at here
          exact List.dropWhile_cons_of_neg (by simpa [UriChar.isDigit] using here character rfl)
      have nothing : (sign ++ digits).drop stop = [] := by
        rw [← Text.bytes_ofBytes ((sign ++ digits).drop stop), ← stays, left]
        rfl
      have ends : stop = (sign ++ digits).length :=
        Nat.le_antisymm found.inside (List.drop_eq_nil_iff.mp nothing)
      rw [nothing, List.append_nil] at parts
      obtain ⟨rfl, rfl⟩ := numeral.unique found.isNumeral parts
      exact ⟨⟨found.signs.imp_right And.left, found.few, low, high⟩, by rw [ends]⟩
    · rintro ⟨⟨signs, few, low, high⟩, rfl⟩
      refine ⟨_, sign, digits, ⟨Nat.le_refl _, ?_, ?_, List.length_pos_iff.mpr numeral.filled, few, numeral.every⟩,
        ?_, low, high, rfl⟩
      · rw [Bytes.slice, List.take_length, List.drop_zero]
      · rcases numeral.signs with none | signed
        · exact .inl none
        · exact signs.imp_right fun allowed => ⟨allowed, signed⟩
      · rw [List.drop_length]
        exact (Pattern.not_begins_character_iff rfl).mpr (HeadIn.nil _)
  split
  · rename_i admitted
    exact (read _).mpr ⟨admitted, rfl⟩
  · rename_i refused
    rw [Option.eq_none_iff_forall_ne_some]
    exact fun token found => refused ((read token).mp found).1

end IntegerType

/-- A literal with a mark after its digits is not there where nothing follows them. -/
theorem Rule.tokenAt?_eq_none_of_marks {kind : Kind} {meaning : Meaning} {pattern : Pattern} {mark : UriChar → Bool}
    {source : Bytes} {offset : Nat} (marks : pattern.Marks mark) (regular : (lexeme kind meaning pattern).Regular)
    (counted : Text.afterDigits (Text.ofBytes (source.drop offset)) = []) :
    (lexeme kind meaning pattern).tokenAt? source offset = none := by
  rw [Option.eq_none_iff_forall_ne_some]
  intro token found
  obtain ⟨_, _, _, split, _⟩ := (Rule.tokenAt?_split_iff regular.1 regular.2).mp found
  obtain ⟨_, _, marked, _⟩ := marks _ _ _ split
  cases counted.symm.trans marked

namespace Grammar

variable {sign digits : Bytes}

/-- Before the integers there are keywords, which begin otherwise, and literals with a mark after their digits. -/
theorem numeral_refused_before (numeral : IsNumeral sign digits) :
    ∀ rule ∈ keywords ++ guid :: (calendar ++ floating), rule.tokenAt? (sign ++ digits) 0 = none := by
  have counted : Text.afterDigits (Text.ofBytes (sign ++ digits)) = [] := by
    have none := numeral.afterDigits []
    rwa [List.append_nil] at none
  have marked {type : EdmType} {pattern : Pattern} {mark : UriChar → Bool} (marks : pattern.Marks mark)
      (steady : (typedLiteral type pattern).steady = true) :
      (typedLiteral type pattern).tokenAt? (sign ++ digits) 0 = none :=
    Rule.tokenAt?_eq_none_of_marks marks ⟨steady, typedLiteral_fits type pattern⟩ counted
  have double : double.tokenAt? (sign ++ digits) 0 = none := marked Pattern.double_marks (by decide)
  have single : single.tokenAt? (sign ++ digits) 0 = none := by rw [single_tokenAt?, double, Option.map_none]
  simp only [List.forall_mem_append, List.forall_mem_cons, calendar, floating]
  refine ⟨fun rule member => ?_, ?_, ⟨?_, ?_, ?_, List.forall_mem_nil _⟩, ?_, double, single, List.forall_mem_nil _⟩
  · have fits := (primitives_regular rule (by simp [primitives, member])).2
    exact (keywords_lead rule member).tokenAt?_eq_none fits floating_apart_keyword numeral.head
  · exact marked Pattern.guid_marks rfl
  · exact marked date_marks rfl
  · exact marked dateTimeOffset_marks rfl
  · exact marked Pattern.timeOfDay_marks rfl
  · exact marked decimal_marks rfl

theorem numeral_refused_after (numeral : IsNumeral sign digits) :
    ∀ rule ∈ string :: (prefixed ++ enumeration :: spatials), rule.tokenAt? (sign ++ digits) 0 = none := by
  have fits (rule : Rule) (member : rule ∈ string :: (prefixed ++ enumeration :: spatials)) : rule.Fits :=
    (primitives_regular rule (by simp only [primitives, List.mem_append, List.mem_cons] at member ⊢; tauto)).2
  have refused {rule : Rule} {accepts : UriChar → Bool}
      (member : rule ∈ string :: (prefixed ++ enumeration :: spatials)) (leads : rule.LeadsIn accepts)
      (apart : UriChar.Apart UriChar.isFloatingLead accepts) : rule.tokenAt? (sign ++ digits) 0 = none :=
    leads.tokenAt?_eq_none (fits rule member) apart numeral.head
  have name : enumeration.tokenAt? (sign ++ digits) 0 = none :=
    enumeration_leads.tokenAt?_eq_none (fits enumeration (by simp)) numeral_apart_name numeral.head_numeral
  simp only [List.forall_mem_append, List.forall_mem_cons]
  refine ⟨?_, fun rule member => ?_, name, fun rule member => ?_⟩
  · exact refused (by simp) string_leads floating_apart_quote
  · exact refused (by simp [member]) (prefixed_lead rule member) floating_apart_prefix
  · exact refused (by simp [member]) (spatials_lead rule member) floating_apart_spatial

theorem integers_eq : integers = IntegerType.all.map (·.rule) := rfl

/-- Of a numeral, the literal of the first integer type that has room for it is read. -/
theorem primitiveLiteral_of_numeral (numeral : IsNumeral sign digits) :
    primitiveLiteral.tokenAt? (sign ++ digits) 0 = (IntegerType.all.find? (·.admits sign digits)).map fun integer =>
      ⟨.literal, ⟨0, (sign ++ digits).length⟩, .typed integer.type⟩ := by
  have parts : primitives = (keywords ++ guid :: (calendar ++ floating)) ++
      (integers ++ string :: (prefixed ++ enumeration :: spatials)) := rfl
  rw [primitiveLiteral_eq_findSome?, parts, List.findSome?_append,
    List.findSome?_eq_none_iff.mpr (numeral_refused_before numeral), Option.none_or, List.findSome?_append,
    List.findSome?_eq_none_iff.mpr (numeral_refused_after numeral), Option.or_none, integers_eq,
    List.findSome?_map, List.find?_eq_findSome?_guard, List.map_findSome?, ← List.head?_filterMap,
    ← List.head?_filterMap]
  refine congrArg List.head? (List.filterMap_congr fun integer member => ?_)
  rw [Function.comp_apply, Function.comp_apply,
    IntegerType.tokenAt?_isNumeral (IntegerType.all_document integer member) numeral, Option.guard]
  split <;> rfl

theorem complete_of_numeral (numeral : IsNumeral sign digits) :
    primitiveLiteral.complete (sign ++ digits) =
      (IntegerType.all.find? (·.admits sign digits)).elim (.error (.noMatch 0)) fun integer =>
        .ok ⟨.literal, ⟨0, (sign ++ digits).length⟩, .typed integer.type⟩ := by
  rw [Rule.complete, primitiveLiteral_of_numeral numeral]
  cases IntegerType.all.find? (·.admits sign digits) with
  | none => rfl
  | some integer => exact if_pos rfl

end Grammar

section Canonical

namespace Bytes

/-- The sign of a number in decimal notation. Only negative numbers have one. -/
def decimalSign (value : Int) : Bytes :=
  if 0 ≤ value then [] else ['-'.toUInt8]

/-- The digits of a number in decimal notation, without leading zeros. -/
def decimalDigits (value : Int) : Bytes :=
  (Nat.toDigits 10 value.natAbs).map Char.toUInt8

theorem digit_of_char {character : Char} (digit : character.isDigit = true) :
    character.toUInt8.toNat = character.toNat ∧ '0'.toNat ≤ character.toNat ∧ character.toNat ≤ '9'.toNat := by
  rw [Char.isDigit, Bool.and_eq_true, decide_eq_true_eq, decide_eq_true_eq, ge_iff_le, UInt32.le_iff_toNat_le,
    UInt32.le_iff_toNat_le] at digit
  have low : character.toNat ≤ '9'.toNat := digit.2
  refine ⟨?_, digit.1, low⟩
  have small : character.toNat < 256 := Nat.lt_of_le_of_lt low (by decide)
  exact (UInt32.toNat_toUInt8 _).trans (Nat.mod_eq_of_lt small)

theorem isDigit_of_char {character : Char} (digit : character.isDigit = true) :
    Octet.isDigit character.toUInt8 = true := by
  obtain ⟨same, least, most⟩ := digit_of_char digit
  rw [Octet.isDigit, Octet.between_iff, UInt8.le_iff_toNat_le, UInt8.le_iff_toNat_le, same]
  exact ⟨least, most⟩

/-- Digits are encoded one octet each. -/
theorem ofString_digits {characters : List Char} (digits : ∀ character ∈ characters, character.isDigit = true) :
    ofString (String.ofList characters) = characters.map Char.toUInt8 := by
  have one (character : Char) (member : character ∈ characters) :
      String.utf8EncodeChar character = [character.toUInt8] := by
    obtain ⟨same, _, most⟩ := digit_of_char (digits character member)
    have low : character.toUInt8.toNat < 0x80 := by
      rw [same]
      exact Nat.lt_of_le_of_lt most (by decide)
    have encoded := Utf8.encode_one low
    rwa [same, Char.ofNat_toNat] at encoded
  rw [← Utf8.encode_eq_ofString, Utf8.encode, String.toList_ofList, List.flatMap_congr one]
  exact List.map_eq_flatMap.symm

theorem decimal_digits (value : Int) : ∀ character ∈ Nat.toDigits 10 value.natAbs, character.isDigit = true :=
  fun _ member => Nat.isDigit_of_mem_toDigits (by decide) (by decide) member

theorem ofString_toString (value : Int) :
    ofString (toString value) = decimalSign value ++ decimalDigits value := by
  have digits : ofString value.natAbs.repr = decimalDigits value := by
    rw [Nat.repr_eq_ofList_toDigits, ofString_digits (decimal_digits value), decimalDigits]
  rw [Int.toString_eq_repr, Int.repr_eq_if, decimalSign]
  split
  · have magnitude : value.toNat = value.natAbs := by omega
    rw [magnitude, digits, List.nil_append]
  · have magnitude : (-value).toNat = value.natAbs := by omega
    rw [magnitude, ← digits, ← Utf8.encode_eq_ofString, ← Utf8.encode_eq_ofString, Utf8.encode, String.toList_append,
      List.flatMap_append]
    rfl

theorem positional_toDigits {characters : List Char} (digits : ∀ character ∈ characters, character.isDigit = true)
    (before : Nat) : Nat.ofDigitChars 10 characters before =
      before * 10 ^ characters.length + positional (characters.map Char.toUInt8) := by
  induction characters generalizing before with
  | nil => simp [positional]
  | cons character others ih =>
    obtain ⟨digit, others⟩ := List.forall_mem_cons.mp digits
    rw [Nat.ofDigitChars_cons, ih others, List.map_cons, positional_cons, (digit_of_char digit).1, List.length_map,
      List.length_cons]
    ring

theorem isNumeral_decimal (value : Int) : IsNumeral (decimalSign value) (decimalDigits value) := by
  refine ⟨?_, by simp [decimalDigits], List.forall_mem_map.mpr fun character member => ?_⟩
  · rw [decimalSign]
    split
    · exact .inl rfl
    · exact .inr (Abnf.derives_sign_iff.mpr ⟨.plain '-'.toUInt8, rfl, by decide, rfl⟩)
  · exact isDigit_of_char (decimal_digits value character member)

theorem denoted_decimal (value : Int) : denoted (decimalSign value) (decimalDigits value) = value := by
  have magnitude : positional (decimalDigits value) = value.natAbs := by
    have counted := positional_toDigits (decimal_digits value) 0
    rw [Nat.ofDigitChars_ten_toDigits, Nat.zero_mul, Nat.zero_add] at counted
    exact counted.symm
  by_cases negative : 0 ≤ value
  · rw [denoted, magnitude, decimalSign, if_pos negative, if_neg (List.cons_ne_nil _ _).symm]
    exact Int.natAbs_of_nonneg negative
  · rw [denoted, magnitude, decimalSign, if_neg negative, if_pos rfl]
    omega

theorem length_decimalDigits_le {value : Int} {count : Nat} (some : 0 < count) :
    (decimalDigits value).length ≤ count ↔ value.natAbs < 10 ^ count := by
  rw [decimalDigits, List.length_map, Nat.length_toDigits_le_iff (by decide) some]

end Bytes

end Canonical

namespace Grammar

/-- Some integer type has room for a number in decimal notation just where 64 bits have. -/
theorem admits_decimal_iff {value : Int} :
    (∃ integer ∈ IntegerType.all, integer.admits (Bytes.decimalSign value) (Bytes.decimalDigits value) = true) ↔
      -9223372036854775808 ≤ value ∧ value ≤ 9223372036854775807 := by
  constructor
  · rintro ⟨integer, member, admitted⟩
    have within : ∀ integer ∈ IntegerType.all,
        -9223372036854775808 ≤ integer.least ∧ integer.greatest ≤ 9223372036854775807 := by
      simp only [IntegerType.all, List.forall_mem_cons]
      exact ⟨by decide, by decide, by decide, by decide, by decide, List.forall_mem_nil _⟩
    obtain ⟨_, _, low, high⟩ := IntegerType.admits_iff.mp admitted
    rw [Bytes.denoted_decimal] at low high
    exact ⟨Int.le_trans (within integer member).1 low, Int.le_trans high (within integer member).2⟩
  · rintro ⟨low, high⟩
    have short : (Bytes.decimalDigits value).length ≤ 19 := by
      rw [Bytes.length_decimalDigits_le (by decide)]
      have bound : (10 : Nat) ^ 19 = 10000000000000000000 := by decide
      omega
    refine ⟨IntegerType.int64, by simp [IntegerType.all], IntegerType.admits_iff.mpr ⟨.inr rfl, short, ?_, ?_⟩⟩
    · rwa [Bytes.denoted_decimal]
    · rwa [Bytes.denoted_decimal]

/-- Digits with or without a sign are, as a whole, a literal of the first integer type that has room for them, and no
literal where there is none. So a number in decimal notation is a literal just where 64 bits have room for it. -/
theorem integers_narrowest :
    (∀ sign digits, IsNumeral sign digits →
      primitiveLiteral.complete (sign ++ digits) =
        (IntegerType.all.find? (·.admits sign digits)).elim (.error (.noMatch 0)) fun integer =>
          .ok ⟨.literal, ⟨0, (sign ++ digits).length⟩, .typed integer.type⟩) ∧
    ∀ value : Int, (∃ token, primitiveLiteral.complete (Bytes.ofString (toString value)) = .ok token) ↔
      -9223372036854775808 ≤ value ∧ value ≤ 9223372036854775807 := by
  refine ⟨fun sign digits => complete_of_numeral, fun value => ?_⟩
  rw [Bytes.ofString_toString, complete_of_numeral (Bytes.isNumeral_decimal value), ← admits_decimal_iff,
    ← List.find?_isSome]
  cases IntegerType.all.find? (·.admits (Bytes.decimalSign value) (Bytes.decimalDigits value)) with
  | none => simp
  | some integer => simp

/-- Leading zeros count as digits: `-0005` has too many of them for a signed byte. -/
theorem integers_narrowest_leading_zeros :
    IsNumeral [0x2D] [0x30, 0x30, 0x30, 0x35] ∧
      primitiveLiteral.complete [0x2D, 0x30, 0x30, 0x30, 0x35] = .ok ⟨.literal, ⟨0, 5⟩, .typed .int16⟩ ∧
      ¬∃ token, primitiveLiteral.complete (Bytes.ofString (toString (9223372036854775808 : Int))) = .ok token := by
  have minus : Derives Abnf.sign [0x2D] := Abnf.derives_sign_iff.mpr ⟨.plain 0x2D, by decide, by decide, rfl⟩
  have every : ∀ octet ∈ ([0x30, 0x30, 0x30, 0x35] : Bytes), Octet.isDigit octet = true := by
    simp only [List.forall_mem_cons]
    exact ⟨rfl, rfl, rfl, rfl, List.forall_mem_nil _⟩
  have numeral : IsNumeral [0x2D] [0x30, 0x30, 0x30, 0x35] := ⟨.inr minus, List.cons_ne_nil _ _, every⟩
  have narrowest : IntegerType.all.find? (·.admits [0x2D] [0x30, 0x30, 0x30, 0x35]) = some IntegerType.int16 :=
    rfl
  refine ⟨numeral, ?_, ?_⟩
  · have read := integers_narrowest.1 _ _ numeral
    rw [narrowest] at read
    exact read
  · rw [integers_narrowest.2]
    decide

end Grammar

end ODataLiteral
