import ODataLiteral.Grammar.Json
import ODataLiteral.Proofs.Json.Abnf
import ODataLiteral.Proofs.Pattern.Language

/-! The patterns of JSON have the texts that the grammar gives them, and take them all: where more than one character
could go on, the next one decides. -/
namespace ODataLiteral

open Pattern

/-- What may stand after an item: whitespace, a separator or a closing bracket. -/
def UriChar.isItemEnd (character : UriChar) : Bool :=
  character.isWhitespace || character.isDelimiter ',' || character.isDelimiter ']' ||
    character.isDelimiter '}'

namespace Pattern

section Language

theorem language_delimiter (bracket : Char) : (delimiter bracket).language = Abnf.mark bracket :=
  (Abnf.mark_eq bracket).symm

theorem language_optionalSpace : optionalSpace.language = Abnf.bws := by
  rw [Abnf.bws, Abnf.mark_eq, Abnf.mark_eq, Abnf.character_add]
  rfl

theorem language_openingBracket (bracket : Char) :
    (openingBracket bracket).language = Abnf.opening bracket := by
  rw [Abnf.opening, ← language_optionalSpace, ← language_delimiter]
  rfl

theorem language_closingBracket (bracket : Char) :
    (closingBracket bracket).language = Abnf.closing bracket := by
  rw [Abnf.closing, ← language_optionalSpace, ← language_delimiter]
  rfl

theorem language_nameSeparator : nameSeparator.language = Abnf.nameSeparator :=
  language_openingBracket ':'

theorem language_valueSeparator : valueSeparator.language = Abnf.valueSeparator :=
  language_openingBracket ','

theorem language_doubleQuote : doubleQuote.language = Abnf.quotationMark :=
  language_delimiter '"'

theorem language_word (keyword : String) : (word keyword).language = Abnf.word keyword := by
  have spells (expected : Text) (taken : Text) : taken ∈ (text expected).language ↔ taken = expected := by
    induction expected generalizing taken with
    | nil => exact Language.mem_one _
    | cons character others ih =>
      have first : taken ∈ (same character).language ↔ taken = [character] := by
        rw [same, language, Abnf.mem_character]
        simp
      cases others with
      | nil => exact first
      | cons next others =>
        have both : (text (character :: next :: others)).language =
            (same character).language * (text (next :: others)).language := rfl
        rw [both, Language.mem_mul]
        constructor
        · rintro ⟨one, head, rest, tail, rfl⟩
          rw [ih rest |>.mp tail]
          simp only [same, language, Abnf.mem_character, beq_iff_eq] at head
          obtain ⟨_, rfl, rfl⟩ := head
          rfl
        · rintro rfl
          exact ⟨[character], ⟨character, by simp, rfl⟩, _, (ih _).mpr rfl, rfl⟩
  ext taken
  exact spells _ taken

/-- Two alternatives of the grammar overlap at the colon. -/
theorem character_jsonPlain :
    Abnf.character UriChar.isJsonPlain = Abnf.unescaped + Abnf.special := by
  rw [Abnf.unescaped, Abnf.encodedUnescaped, Abnf.special]
  simp only [Abnf.raw, Abnf.encoded, Abnf.character_add]
  congr 1
  funext character
  cases character with
  | plain octet =>
    have special : Octet.oneOf " :{}[]" octet = (Octet.oneOf ":" octet || Octet.oneOf " {}[]" octet) := by
      rw [Bool.eq_iff_iff]
      simp [Octet.oneOf]
      tauto
    have overlap : (Octet.oneOf ":@/?$'=" octet || Octet.oneOf ":" octet) = Octet.oneOf ":@/?$'=" octet := by
      rw [Bool.eq_iff_iff]
      simp [Octet.oneOf]
      tauto
    simp only [UriChar.isJsonPlain, UriChar.isPlain, UriChar.isEncoded, UriChar.decoded?, Option.any_none,
      Bool.or_false, special]
    rw [← overlap]
    ac_rfl
  | encoded high low => simp [UriChar.isJsonPlain, UriChar.isPlain]

theorem language_jsonEscape : jsonEscape.language = Abnf.escaped := by
  have either : Abnf.raw (Octet.oneOf "/bfnrt") =
      Abnf.raw (· == '/'.toUInt8) + Abnf.raw (Octet.oneOf "bfnrt") := by
    rw [Abnf.raw, Abnf.raw, Abnf.raw, Abnf.character_add]
    congr 1
    funext character
    cases character with
    | plain octet =>
      show Octet.oneOf "/bfnrt" octet = (octet == '/'.toUInt8 || Octet.oneOf "bfnrt" octet)
      rw [BEq.comm]
      rfl
    | encoded high low => rfl
  have unfolded : jsonEscape.language = Abnf.mark '"' + (Abnf.mark '\\' +
      (Abnf.raw (Octet.oneOf "/bfnrt") + (Abnf.raw (· == 'u'.toUInt8) *
        Abnf.repeated 4 (some 4) (Abnf.raw Octet.isHexDigit) + Abnf.encoded (· == '/'.toUInt8)))) := by
    rw [← language_delimiter, ← language_delimiter]
    rfl
  have slash : Abnf.mark '/' = Abnf.raw (· == '/'.toUInt8) + Abnf.encoded (· == '/'.toUInt8) := rfl
  rw [unfolded, either, Abnf.escaped, Abnf.quotationMark, Abnf.escape, slash]
  ac_rfl

theorem language_jsonChar : jsonChar.language = Abnf.charInJson := by
  rw [Abnf.charInJson, ← character_jsonPlain, ← language_jsonEscape, Abnf.escape, ← language_delimiter]
  rfl

/-- A string is what stands between quotation marks, where its octets are valid as a whole. -/
theorem mem_string_iff {text : Text} :
    text ∈ Abnf.string ↔ text ∈ jsonString.language ∧ Utf8.Valid (Text.bytes text.tail.dropLast) := by
  have quoted : jsonString.language =
      Abnf.quotationMark * Abnf.repeated 0 none Abnf.charInJson * Abnf.quotationMark := by
    rw [← language_jsonChar, ← language_doubleQuote]
    rfl
  have between {first last : UriChar} (body : Text) :
      ([first] ++ body ++ [last]).tail.dropLast = body := by
    simp
  rw [quoted, Abnf.string, Abnf.quotationMark]
  simp only [Language.mem_mul, Abnf.mem_mark]
  constructor
  · rintro ⟨_, ⟨_, opens, body, ⟨member, valid⟩, rfl⟩, _, ⟨last, closes, rfl⟩, rfl⟩
    obtain ⟨first, isQuote, rfl⟩ := opens
    refine ⟨⟨_, ⟨_, ⟨first, isQuote, rfl⟩, body, member, rfl⟩, _, ⟨last, closes, rfl⟩, rfl⟩, ?_⟩
    rwa [between]
  · rintro ⟨⟨_, ⟨_, opens, body, member, rfl⟩, _, ⟨last, closes, rfl⟩, rfl⟩, valid⟩
    obtain ⟨first, isQuote, rfl⟩ := opens
    rw [between] at valid
    exact ⟨_, ⟨_, ⟨first, isQuote, rfl⟩, body, ⟨member, valid⟩, rfl⟩, _, ⟨last, closes, rfl⟩, rfl⟩

theorem language_identifier : identifier.language = Abnf.identifier := by
  show Abnf.identifier * 1 = Abnf.identifier
  rw [mul_one]

theorem language_qualifiedName : qualifiedName.language = Abnf.qualifiedName := by
  rw [Abnf.qualifiedName, ← language_identifier]
  rfl

theorem language_annotationTerm : annotationTerm.language = Abnf.annotationKey := by
  rw [Abnf.annotationKey, ← language_qualifiedName, ← language_delimiter]
  rfl

end Language

section Deterministic

variable {follow : UriChar → Bool}

theorem identifier_deterministic (names : UriChar.Apart follow UriChar.isNameChar) :
    identifier.Deterministic follow := by
  refine ⟨⟨trivial, trivial, rfl, .inr ?_⟩, rfl, names⟩
  exact UriChar.Apart.or (UriChar.false_apart _) names

theorem dot_apart_name : UriChar.Apart (UriChar.isPlain (· == '.'.toUInt8)) UriChar.isNameChar :=
  UriChar.Apart.symm (UriChar.apart_plain rfl)

/-- A name goes on after a dot, so neither a dot nor a character of a name may follow. -/
theorem qualifiedName_deterministic (names : UriChar.Apart follow UriChar.isNameChar)
    (dots : UriChar.Apart follow (UriChar.isPlain (· == '.'.toUInt8))) :
    qualifiedName.Deterministic follow := by
  have dot := UriChar.Apart.or dot_apart_name (UriChar.false_apart _)
  refine ⟨identifier_deterministic ?_, ⟨trivial, identifier_deterministic ?_⟩, rfl, .inr ?_⟩
  · exact UriChar.Apart.or dot (UriChar.false_apart _)
  · exact UriChar.Apart.or dot names
  · exact UriChar.Apart.symm (UriChar.Apart.or dots.symm (UriChar.false_apart _))

theorem text_deterministic (expected : Text) (follow : UriChar → Bool) :
    (text expected).Deterministic follow := by
  induction expected generalizing follow with
  | nil => trivial
  | cons character others ih =>
    cases others with
    | nil => trivial
    | cons next others => exact ⟨trivial, ih follow⟩

theorem itemEnd_apart_digit : UriChar.Apart UriChar.isItemEnd UriChar.isDigit := by
  have mark {one : Char} (other : Octet.isDigit one.toUInt8 = false) :
      UriChar.Apart (UriChar.isDelimiter one) UriChar.isDigit :=
    UriChar.Apart.symm (UriChar.apart_delimiter other fun _ _ => rfl)
  refine UriChar.Apart.or (UriChar.Apart.or (UriChar.Apart.or (UriChar.Apart.or ?_ ?_) ?_) ?_) ?_
  all_goals exact mark (by decide)

theorem jsonNumber_deterministic : jsonNumber.Deterministic UriChar.isItemEnd := by
  have point : (plain '.' ++ atLeast 1 digit).leads = UriChar.isPlain (· == '.'.toUInt8) := leads_of_filled rfl
  have exponent : (octet (Octet.oneOf "eE") ++ optional (octet (Octet.oneOf "-+")) ++ atLeast 1 digit).leads =
      UriChar.isPlain (Octet.oneOf "eE") :=
    (leads_of_filled rfl).trans (leads_of_filled rfl)
  have pointed : UriChar.Apart (plain '.' ++ atLeast 1 digit).leads digit.leads :=
    point ▸ UriChar.Apart.symm (UriChar.apart_plain rfl)
  have raised := UriChar.Apart.or (exponent ▸ UriChar.Apart.symm (UriChar.apart_oneOf rfl))
    itemEnd_apart_digit
  refine ⟨⟨⟨⟨trivial, rfl, .inr ?_⟩, ⟨trivial, trivial, trivial, rfl, .inr ?_⟩, rfl, ?_, nofun⟩,
    ⟨trivial, trivial, rfl, .inr ?_⟩, rfl, .inr ?_⟩,
    ⟨⟨trivial, trivial, rfl, .inr ?_⟩, trivial, rfl, .inr ?_⟩, rfl, .inr ?_⟩
  · exact UriChar.apart_plain rfl
  · exact UriChar.Apart.or pointed raised
  · exact UriChar.apart_plain rfl
  · exact UriChar.Apart.or pointed raised
  · exact point ▸ UriChar.apart_plain rfl
  · exact UriChar.apart_oneOf rfl
  · exact raised
  · exact exponent ▸ UriChar.apart_oneOf rfl

theorem delimiter_apart_jsonPlain {delimiter : Char} (either : delimiter = '"' ∨ delimiter = '\\') :
    UriChar.Apart (UriChar.isDelimiter delimiter) UriChar.isJsonPlain := by
  have plain : UriChar.isJsonPlain (.plain delimiter.toUInt8) = false := by
    rcases either with rfl | rfl <;> rfl
  refine UriChar.Apart.symm (UriChar.apart_delimiter plain fun high low => ?_)
  show ((Octet.hexValue high * 16 + Octet.hexValue low != '"'.toUInt8 &&
    Octet.hexValue high * 16 + Octet.hexValue low != '\\'.toUInt8) &&
      Octet.hexValue high * 16 + Octet.hexValue low == delimiter.toUInt8) = false
  generalize Octet.hexValue high * 16 + Octet.hexValue low = octet
  by_cases same : octet = delimiter.toUInt8
  · subst same
    rcases either with rfl | rfl <;> rfl
  · rw [beq_false_of_ne same, Bool.and_false]

theorem plain_apart_delimiter {accepts : UInt8 → Bool} {delimiter : Char}
    (other : accepts delimiter.toUInt8 = false) :
    UriChar.Apart (UriChar.isPlain accepts) (UriChar.isDelimiter delimiter) :=
  UriChar.apart_delimiter other fun _ _ => rfl

theorem encoded_apart_plain (octet : UInt8) (accepts : UInt8 → Bool) :
    UriChar.Apart (UriChar.isEncoded (· == octet)) (UriChar.isPlain accepts) :=
  UriChar.apart_of_octets (fun _ => rfl) fun _ _ => Bool.and_false _

theorem encoded_apart_delimiter {octet : UInt8} {delimiter : Char} (other : octet ≠ delimiter.toUInt8) :
    UriChar.Apart (UriChar.isEncoded (· == octet)) (UriChar.isDelimiter delimiter) :=
  UriChar.apart_of_octets (fun _ => rfl) fun high low => UriChar.encoded_apart other high low

/-- The character after an escape character decides which of the escapes it is. -/
theorem jsonEscape_deterministic : jsonEscape.Deterministic follow := by
  have hex : (plain 'u' ++ exactly 4 hexDigit).Deterministic follow := ⟨trivial, trivial, rfl, .inl rfl⟩
  refine ⟨⟨trivial, ⟨trivial, ⟨trivial, ⟨hex, trivial⟩, rfl, ?_, nofun⟩, rfl, ?_, nofun⟩, rfl, ?_, nofun⟩,
    rfl, ?_, nofun⟩
  · exact UriChar.Apart.symm (UriChar.Apart.or (encoded_apart_plain _ _).symm (UriChar.false_apart _))
  · refine UriChar.Apart.or (UriChar.Apart.or ?_ (UriChar.false_apart _)) (encoded_apart_plain _ _)
    exact UriChar.apart_oneOf rfl
  · refine UriChar.Apart.or (plain_apart_delimiter (by decide)) ?_
    exact UriChar.Apart.or (UriChar.Apart.or (plain_apart_delimiter (by decide)) (UriChar.false_apart _))
      (encoded_apart_delimiter (by decide))
  · refine UriChar.Apart.or (UriChar.delimiters_apart (by decide)) ?_
    refine UriChar.Apart.or (plain_apart_delimiter (by decide)) ?_
    exact UriChar.Apart.or (UriChar.Apart.or (plain_apart_delimiter (by decide)) (UriChar.false_apart _))
      (encoded_apart_delimiter (by decide))

theorem jsonChar_deterministic : jsonChar.Deterministic follow := by
  refine ⟨⟨trivial, trivial, jsonEscape_deterministic⟩, rfl, ?_, nofun⟩
  exact UriChar.Apart.or (delimiter_apart_jsonPlain (.inr rfl)) (UriChar.false_apart _)

/-- A quotation mark that nothing escapes begins no character of a string. -/
theorem doubleQuote_apart_jsonChar : UriChar.Apart (UriChar.isDelimiter '"') jsonChar.leads := by
  have quote : UriChar.Apart (UriChar.isDelimiter '"') (UriChar.isDelimiter '\\') :=
    UriChar.delimiters_apart (by decide)
  exact UriChar.Apart.symm (UriChar.Apart.or (delimiter_apart_jsonPlain (.inl rfl)).symm
    (UriChar.Apart.or quote.symm (UriChar.false_apart _)))

theorem jsonString_deterministic : jsonString.Deterministic follow := by
  refine ⟨⟨trivial, jsonChar_deterministic, rfl, .inr ?_⟩, trivial⟩
  exact UriChar.Apart.or doubleQuote_apart_jsonChar (UriChar.false_apart _)

end Deterministic

end Pattern

end ODataLiteral
