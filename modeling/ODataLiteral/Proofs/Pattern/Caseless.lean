import ODataLiteral.Pattern.Calendar
import ODataLiteral.Pattern.Numeral
import ODataLiteral.Pattern.Quoted
import ODataLiteral.Proofs.Pattern.Shape

/-! The letter case of the digits of an encoded octet. A text is brought to small digits, which changes neither the
octet that a character stands for nor how long it is, and no class of characters asks for more.
So a pattern splits a text where it splits the text in small digits. -/
namespace ODataLiteral

namespace Octet

/-- A hexadecimal digit with a small letter. Other octets stay as they are. -/
def small (octet : UInt8) : UInt8 :=
  if between 'A' 'F' octet then octet + 32 else octet

/-- The hexadecimal digits that are capital letters. -/
def capitals : List UInt8 := [65, 66, 67, 68, 69, 70]

theorem capital_or_small (octet : UInt8) : octet ∈ capitals ∨ small octet = octet := by
  by_cases capital : between 'A' 'F' octet = true
  · left
    simp only [between, Bool.and_eq_true, decide_eq_true_iff, UInt8.le_iff_toNat_le] at capital
    have least : 65 ≤ octet.toNat := capital.1
    have most : octet.toNat ≤ 70 := capital.2
    simp only [capitals, List.mem_cons, List.not_mem_nil, ← UInt8.toNat_inj, UInt8.reduceToNat]
    omega
  · exact .inr (if_neg capital)

/-- A function that is the same for the capital letters and their small ones is so for every octet. -/
theorem apply_small {α : Type} (function : UInt8 → α)
    (letters : capitals.map (fun octet => function (small octet)) = capitals.map function) (octet : UInt8) :
    function (small octet) = function octet := by
  rcases capital_or_small octet with member | kept
  · exact List.map_inj_left.mp letters octet member
  · rw [kept]

theorem hexValue_small (octet : UInt8) : hexValue (small octet) = hexValue octet :=
  apply_small hexValue rfl octet

theorem isHexDigit_small (octet : UInt8) : isHexDigit (small octet) = isHexDigit octet :=
  apply_small isHexDigit rfl octet

theorem small_eq_or_lt (octet : UInt8) :
    small octet = octet ∨ (small octet).toNat < 0x80 ∧ octet.toNat < 0x80 := by
  rcases capital_or_small octet with member | kept
  · right
    have ascii := apply_small (fun octet => decide (octet.toNat < 0x80)) rfl octet
    have low : octet.toNat < 0x80 := by
      simp only [capitals, List.mem_cons, List.not_mem_nil, or_false, ← UInt8.toNat_inj,
        UInt8.reduceToNat] at member
      omega
    exact ⟨decide_eq_decide.mp ascii |>.mpr low, low⟩
  · exact .inl kept

end Octet

/-- The same character with small letters for its digits. -/
def UriChar.small : UriChar → UriChar
  | plain octet => plain octet
  | encoded high low => encoded (Octet.small high) (Octet.small low)

/-- The same text with small letters for the digits of encoded octets. -/
def Text.small (text : Text) : Text :=
  text.map UriChar.small

namespace UriChar

@[simp] theorem width_small (character : UriChar) : character.small.width = character.width := by
  cases character <;> rfl

@[simp] theorem decoded?_small (character : UriChar) : character.small.decoded? = character.decoded? := by
  cases character with
  | plain octet => rfl
  | encoded high low => simp only [small, decoded?, Octet.hexValue_small]

@[simp] theorem isPlain_small (accepts : UInt8 → Bool) (character : UriChar) :
    character.small.isPlain accepts = character.isPlain accepts := by
  cases character <;> rfl

@[simp] theorem isEncoded_small (accepts : UInt8 → Bool) (character : UriChar) :
    character.small.isEncoded accepts = character.isEncoded accepts := by
  simp only [isEncoded, decoded?_small]

@[simp] theorem isDelimiter_small (delimiter : Char) (character : UriChar) :
    character.small.isDelimiter delimiter = character.isDelimiter delimiter := by
  simp only [isDelimiter, isPlain_small, isEncoded_small]

@[simp] theorem isWhitespace_small (character : UriChar) : character.small.isWhitespace = character.isWhitespace := by
  simp only [isWhitespace, isDelimiter_small]

@[simp] theorem isPathChar_small (character : UriChar) : character.small.isPathChar = character.isPathChar := by
  simp only [isPathChar, isPlain_small, isEncoded_small]

@[simp] theorem isStray_small (character : UriChar) : character.small.isStray = character.isStray := by
  simp only [isStray, isPathChar_small, isPlain_small, isDelimiter_small, isWhitespace_small]

@[simp] theorem isJsonPlain_small (character : UriChar) : character.small.isJsonPlain = character.isJsonPlain := by
  simp only [isJsonPlain, isPlain_small, isEncoded_small]

theorem small_eq_plain_iff {character : UriChar} {octet : UInt8} :
    character.small = plain octet ↔ character = plain octet := by
  cases character with
  | plain other => exact Iff.rfl
  | encoded high low => simp only [small, reduceCtorEq]

theorem small_of_isPlain {accepts : UInt8 → Bool} {character : UriChar}
    (plain : character.isPlain accepts = true) : character.small = character := by
  cases character with
  | plain octet => rfl
  | encoded high low => cases plain

end UriChar

namespace Text

@[simp] theorem width_small (text : Text) : text.small.width = text.width := by
  induction text with
  | nil => rfl
  | cons character rest ih =>
    simp only [small, List.map_cons, width, List.foldr_cons, UriChar.width_small] at ih ⊢
    rw [ih]

theorem small_of_forall {text : Text} (kept : ∀ character ∈ text, character.small = character) :
    text.small = text := by
  unfold small
  rw [List.map_congr_left kept, List.map_id']

end Text

namespace Pattern

/-- A pattern none of whose classes tells a capital digit from a small one, those that are looked ahead for included. -/
def Caseless : Pattern → Prop
  | empty => True
  | char accepts => ∀ character, accepts character.small = accepts character
  | seq first second | alt first second => first.Caseless ∧ second.Caseless
  | times _ _ body => body.Caseless
  | notBefore ahead => ahead.Caseless

def inSmall (found : Text × Text) : Text × Text :=
  (found.1.small, found.2.small)

theorem repeatSplit_small {step : Text → Option (Text × Text)}
    (agree : ∀ text : Text, step text.small = (step text).map inSmall) (budget : Text) (most : Option Nat)
    (text : Text) :
    repeatSplit step budget.small most text.small =
      ((repeatSplit step budget most text).1.map Text.small, (repeatSplit step budget most text).2.small) := by
  -- Only the length of the budget counts. It is in small digits as well, as it is the text itself in a pattern.
  induction budget generalizing most text with
  | nil => rfl
  | cons character budget ih =>
    have parts : Text.small (character :: budget) = character.small :: Text.small budget := rfl
    rw [parts, repeatSplit_cons, repeatSplit_cons, agree]
    split
    · rfl
    · cases step text with
      | none => rfl
      | some found => simp only [Option.map_some, inSmall, ih, List.map_cons]

theorem split_small {pattern : Pattern} (caseless : pattern.Caseless) (text : Text) :
    pattern.split text.small = (pattern.split text).map inSmall := by
  induction pattern generalizing text with
  | empty => rfl
  | char accepts =>
    cases text with
    | nil => rfl
    | cons character rest =>
      have parts : Text.small (character :: rest) = character.small :: Text.small rest := rfl
      rw [parts, split_char_cons, split_char_cons, caseless character]
      split <;> rfl
  | seq first second ihFirst ihSecond =>
    rw [split_seq, split_seq, ihFirst caseless.1]
    cases first.split text with
    | none => rfl
    | some found =>
      simp only [Option.map_some, inSmall, ihSecond caseless.2, Option.map_map]
      congr 1
      funext last
      simp only [Function.comp, inSmall, Text.small, List.map_append]
  | alt first second ihFirst ihSecond =>
    rw [split_alt, split_alt, ihFirst caseless.1, ihSecond caseless.2]
    cases first.split text <;> rfl
  | times least most body ih =>
    rw [split_times, split_times, repeatSplit_small (ih caseless), List.length_map]
    split
    · simp only [Option.map_some, inSmall, Text.small, List.map_flatten]
      rfl
    · rfl
  | notBefore ahead ih =>
    rw [split_notBefore, split_notBefore, ih caseless, Option.isSome_map]
    split <;> rfl

section Classes

theorem octet_caseless (accepts : UInt8 → Bool) : (octet accepts).Caseless :=
  UriChar.isPlain_small accepts

theorem delimiter_caseless (character : Char) : (delimiter character).Caseless :=
  UriChar.isDelimiter_small character

theorem text_caseless {expected : Text} (plain : ∀ character ∈ expected, ∃ octet, character = .plain octet) :
    (text expected).Caseless := by
  induction expected with
  | nil => trivial
  | cons character rest ih =>
    obtain ⟨⟨octet, rfl⟩, others⟩ := List.forall_mem_cons.mp plain
    -- Without small digits only the plain character itself is like it.
    have first : (same (.plain octet)).Caseless := by
      intro other
      rw [Bool.eq_iff_iff, beq_iff_eq, beq_iff_eq]
      exact UriChar.small_eq_plain_iff
    cases rest with
    | nil => exact first
    | cons next others' => exact ⟨first, ih others⟩

theorem word_caseless (keyword : String) : (word keyword).Caseless := by
  apply text_caseless
  intro character member
  obtain ⟨letter, _, rfl⟩ := List.mem_map.mp member
  exact ⟨letter.toUInt8, rfl⟩

end Classes

end Pattern

end ODataLiteral
