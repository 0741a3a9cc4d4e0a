import ODataLiteral.Grammar.Json
import ODataLiteral.Proofs.Rule.Lead

/-! What tells the alternatives of a JSON value apart: the first character that is not whitespace, and for two
arrays the first character of their first item. -/
namespace ODataLiteral

open Pattern

/-- The first character at a place that is not whitespace. -/
def Place.significant? (place : Place) : Option UriChar :=
  (place.rest.dropWhile UriChar.isWhitespace).head?

namespace Grammar

theorem significant_of_openingBracket {bracket : Char} {start stop : Place} {text : Text}
    (read : (openingBracket bracket).parse start = some (text, stop)) :
    ∃ character, start.significant? = some character ∧ character.isDelimiter bracket = true := by
  obtain ⟨character, tail, accepted, same, _⟩ :=
    split_openingBracket_iff.mp (Pattern.parse_iff.mp read).1
  exact ⟨character, by rw [Place.significant?, same]; rfl, accepted⟩

theorem significant_of_list {bracket : Char} {kind : Kind} {item : Parser}
    {separator closing : Pattern} {mayBeEmpty : Bool} {start stop : Place} {token : Token}
    (read : Parser.list kind (openingBracket bracket) item separator closing mayBeEmpty start =
      some (token, stop)) :
    ∃ character, start.significant? = some character ∧ character.isDelimiter bracket = true := by
  obtain ⟨_, _, _, opened, _⟩ := Parser.list_iff.mp read
  exact significant_of_openingBracket opened

theorem significant_of_object {levels : Nat} {start stop : Place} {token : Token}
    (read : object.parse levels start = some (token, stop)) :
    ∃ character, start.significant? = some character ∧ character.isDelimiter '{' = true := by
  cases levels with
  | zero => cases read
  | succ levels => exact significant_of_list read

theorem significant_of_array {item : Rule} {levels : Nat} {start stop : Place} {token : Token}
    (read : (array item).parse levels start = some (token, stop)) :
    ∃ character, start.significant? = some character ∧ character.isDelimiter '[' = true :=
  significant_of_list read

section Primitive

theorem true_apart_false : UriChar.Apart (word "true").leads (word "false").leads :=
  apart_word rfl

theorem jsonBoolean_apart : UriChar.Apart jsonBoolean.leads (Rule.orElse jsonNull .never).leads :=
  UriChar.Apart.symm (UriChar.Apart.or (UriChar.Apart.symm (apart_word rfl)) (UriChar.false_apart _))

theorem jsonNumber_apart :
    UriChar.Apart jsonNumber.leads (Rule.orElse jsonBoolean (.orElse jsonNull .never)).leads := by
  have booleans : UriChar.Apart jsonBoolean.leads jsonNumber.leads :=
    UriChar.Apart.or (UriChar.Apart.symm (apart_word rfl)) (UriChar.Apart.symm (apart_word rfl))
  have nulls : UriChar.Apart (Rule.orElse jsonNull .never).leads jsonNumber.leads :=
    UriChar.Apart.or (UriChar.Apart.symm (apart_word rfl)) (UriChar.false_apart _)
  exact UriChar.Apart.symm (UriChar.Apart.or booleans nulls)

theorem jsonString_apart : UriChar.Apart jsonString.leads
    (Rule.orElse jsonNumber (.orElse jsonBoolean (.orElse jsonNull .never))).leads := by
  have quote : jsonString.leads = UriChar.isDelimiter '"' := (leads_of_filled rfl).trans (leads_of_filled rfl)
  rw [quote]
  exact UriChar.Apart.symm (UriChar.apart_delimiter rfl fun _ _ => rfl)

end Primitive

/-- The only encoded character that a primitive value begins with is a quote. -/
theorem jsonPrimitive_leads_encoded (high low : UInt8) :
    jsonPrimitive.leads (.encoded high low) = UriChar.isDelimiter '"' (.encoded high low) := by
  have unfolded : jsonPrimitive.leads (.encoded high low) =
      (((UriChar.isDelimiter '"' (.encoded high low) || false) || false) || false) := rfl
  simpa only [Bool.or_false] using unfolded

theorem jsonPrimitive_apart (delimiter : Char) (other : '"'.toUInt8 ≠ delimiter.toUInt8)
    (plain : jsonPrimitive.leads (.plain delimiter.toUInt8) = false) :
    UriChar.Apart jsonPrimitive.leads (UriChar.isDelimiter delimiter) := by
  refine UriChar.apart_delimiter plain fun high low => ?_
  rw [jsonPrimitive_leads_encoded]
  exact UriChar.encoded_apart other high low

theorem significant_of_rule {rule : Rule} (steady : rule.steady = true)
    (visible : UriChar.Apart rule.leads UriChar.isWhitespace) {levels : Nat} {start stop : Place} {token : Token}
    (read : rule.parse levels start = some (token, stop)) :
    ∃ character, start.significant? = some character ∧ rule.leads character = true := by
  obtain ⟨character, rest, same, lead⟩ := Rule.parse_begins levels steady _ _ _ read
  refine ⟨character, ?_, lead⟩
  rw [Place.significant?, same, List.dropWhile_cons_of_neg (by simp [visible character lead])]
  rfl

theorem significant_of_jsonPrimitive {levels : Nat} {start stop : Place} {token : Token}
    (read : jsonPrimitive.parse levels start = some (token, stop)) :
    ∃ character, start.significant? = some character ∧ jsonPrimitive.leads character = true := by
  have space := jsonPrimitive_apart ' ' (by decide) (by decide)
  have tab := jsonPrimitive_apart '\t' (by decide) (by decide)
  exact significant_of_rule (by decide) (UriChar.Apart.or space.symm tab.symm).symm read

/-- Where the first character that is not whitespace is in one class, nothing reads that needs it in another. -/
theorem eq_none_of_significant {first second : UriChar → Bool} (apart : UriChar.Apart first second)
    {start : Place} (here : ∃ character, start.significant? = some character ∧ first character = true)
    {kind : Type} {found : Option (kind × Place)}
    (needs : ∀ value stop, found = some (value, stop) →
      ∃ character, start.significant? = some character ∧ second character = true) :
    found = none := by
  cases same : found with
  | none => rfl
  | some pair =>
    obtain ⟨character, first, accepted⟩ := here
    obtain ⟨_, second, accepted'⟩ := needs _ _ same
    rw [first] at second
    cases second
    rw [apart character accepted] at accepted'
    cases accepted'

theorem braces_apart : UriChar.Apart (UriChar.isDelimiter '{') (UriChar.isDelimiter '[') :=
  UriChar.delimiters_apart (by decide)

section Excludes

variable {levels : Nat} (levels' : Nat) {start stop : Place} {token : Token}

theorem object_excludes (read : object.parse levels start = some (token, stop)) :
    objectArray.parse levels' start = none ∧ jsonPrimitive.parse levels' start = none ∧
      primitiveArray.parse levels' start = none := by
  have here := significant_of_object read
  have apart := (jsonPrimitive_apart '{' (by decide) (by decide)).symm
  exact ⟨eq_none_of_significant braces_apart here fun _ _ => significant_of_array,
    eq_none_of_significant apart here fun _ _ => significant_of_jsonPrimitive,
    eq_none_of_significant braces_apart here fun _ _ => significant_of_array⟩

theorem array_excludes {item : Rule} (read : (array item).parse levels start = some (token, stop)) :
    object.parse levels' start = none ∧ jsonPrimitive.parse levels' start = none := by
  have here := significant_of_array read
  have apart := (jsonPrimitive_apart '[' (by decide) (by decide)).symm
  exact ⟨eq_none_of_significant braces_apart.symm here fun _ _ => significant_of_object,
    eq_none_of_significant apart here fun _ _ => significant_of_jsonPrimitive⟩

/-- An array with an object in it starts with that object, so only an empty array is also one of primitive
values, and then it is the same token. -/
theorem arrays_meet {stopToo : Place} {tokenToo : Token}
    (read : objectArray.parse levels start = some (token, stop))
    (readToo : primitiveArray.parse levels' start = some (tokenToo, stopToo)) :
    token.children = [] ∧ tokenToo = token ∧ stop = stopToo := by
  obtain ⟨_, first, _, begins, rfl, inner⟩ := Parser.list_iff.mp read
  obtain ⟨_, again, _, beginsToo, rfl, innerToo⟩ := Parser.list_iff.mp readToo
  rw [begins] at beginsToo
  cases beginsToo
  rcases inner with ⟨_, rfl, _, closed⟩ | ⟨goesOn, run⟩
  · rcases innerToo with ⟨_, rfl, _, closedToo⟩ | ⟨goesOnToo, _⟩
    · rw [closed] at closedToo
      cases closedToo
      exact ⟨rfl, rfl, rfl⟩
    · rw [goesOnToo rfl] at closed
      cases closed
  · rcases innerToo with ⟨_, _, _, closedToo⟩ | ⟨_, runToo⟩
    · rw [goesOn rfl] at closedToo
      cases closedToo
    · obtain ⟨_, _, item⟩ := Parser.first_of_items run
      obtain ⟨_, _, itemToo⟩ := Parser.first_of_items runToo
      obtain ⟨_, refused, _⟩ := object_excludes levels' item
      exact absurd (refused.symm.trans itemToo) nofun

theorem objectArray_excludes (read : objectArray.parse levels start = some (token, stop))
    (filled : token.children ≠ []) : primitiveArray.parse levels' start = none := by
  cases other : primitiveArray.parse levels' start with
  | none => rfl
  | some found => exact absurd (arrays_meet levels' read other).1 filled

/-- A key after an at sign is no identifier. -/
theorem annotationMember_excludes
    (read : annotationMember.parse levels start = some (token, stop)) :
    propertyMember.parse levels' start = none := by
  obtain ⟨child, read, _⟩ := Rule.parse_withKind_iff.mp read
  obtain ⟨_, key, _, _, _, _, _, quoted, term, _, _, _⟩ := Parser.pair_iff.mp read
  have sign : annotationTerm.leads = UriChar.isDelimiter '@' := leads_of_filled rfl
  have apart : UriChar.Apart annotationTerm.leads identifier.leads := by
    rw [sign]
    exact UriChar.Apart.symm (UriChar.apart_delimiter rfl fun _ _ => rfl)
  cases other : propertyMember.parse levels' start with
  | none => rfl
  | some found =>
    obtain ⟨_, again, _, _, _, _, _, quotedToo, name, _, _, _⟩ := Parser.pair_iff.mp other
    rw [quoted] at quotedToo
    cases quotedToo
    have refused := Rule.parse_eq_none_of_apart (by decide) (by decide) apart term levels'
    exact absurd (refused.symm.trans name) nofun

end Excludes

end Grammar

end ODataLiteral
