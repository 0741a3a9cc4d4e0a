import ODataLiteral.Proofs.Grammar.Caseless
import ODataLiteral.Proofs.Rule.Nodes

/-! The letter case of the hexadecimal digits in a source means nothing. Two sources that differ in it alone are the
same text in small digits, so a rule finds the same in both, or nothing in either.
Only a JSON string keeps the octets between its quotation marks, and it keeps them as they are written. -/
namespace ODataLiteral

open UriChar (percent)

/-- The same octets, but for the letter case of hexadecimal digits behind a percent sign. -/
inductive Bytes.Recased : Bytes → Bytes → Prop
  | nil : Recased [] []
  | octet {source other : Bytes} (octet : UInt8) (rest : Recased source other) :
      Recased (octet :: source) (octet :: other)
  | triplet {source other : Bytes} {high low high' low' : UInt8} (isHigh : Octet.isHexDigit high = true)
      (isLow : Octet.isHexDigit low = true) (sameHigh : Octet.small high' = Octet.small high)
      (sameLow : Octet.small low' = Octet.small low) (rest : Recased source other) :
      Recased (percent :: high :: low :: source) (percent :: high' :: low' :: other)

namespace Bytes.Recased

variable {source other : Bytes}

theorem isHexDigit_of_small {one two : UInt8} (same : Octet.small two = Octet.small one)
    (digit : Octet.isHexDigit one = true) : Octet.isHexDigit two = true := by
  rw [← Octet.isHexDigit_small, same, Octet.isHexDigit_small, digit]

theorem next? (same : Recased source other) :
    source = [] ∧ other = [] ∨ ∃ character rest character' rest',
      UriChar.next? source = some (character, rest) ∧ UriChar.next? other = some (character', rest') ∧
        character'.small = character.small ∧ Recased rest rest' := by
  have percentOnly : Octet.isHexDigit percent = false := rfl
  cases same with
  | nil => exact .inl ⟨rfl, rfl⟩
  | @triplet _ _ high low high' low' isHigh isLow sameHigh sameLow rest =>
    have isHigh' := isHexDigit_of_small sameHigh isHigh
    have isLow' := isHexDigit_of_small sameLow isLow
    refine .inr ⟨.encoded high low, _, .encoded high' low', _, by simp [UriChar.next?, isHigh, isLow],
      by simp [UriChar.next?, isHigh', isLow'], ?_, rest⟩
    simp only [UriChar.small, sameHigh, sameLow]
  | octet first rest =>
    right
    by_cases escape : first = percent
    · subst escape
      -- The two octets behind the percent sign are the same ones, unless one of them is a percent sign too.
      cases rest with
      | nil => exact ⟨_, _, _, _, rfl, rfl, rfl, .nil⟩
      | triplet isHigh isLow sameHigh sameLow rest =>
        exact ⟨.plain percent, _, .plain percent, _, by simp [UriChar.next?, percentOnly],
          by simp [UriChar.next?, percentOnly], rfl, .triplet isHigh isLow sameHigh sameLow rest⟩
      | octet high rest =>
        cases rest with
        | nil => exact ⟨_, _, _, _, rfl, rfl, rfl, .octet high .nil⟩
        | triplet isHigh isLow sameHigh sameLow rest =>
          exact ⟨.plain percent, _, .plain percent, _, by simp [UriChar.next?, percentOnly],
            by simp [UriChar.next?, percentOnly], rfl, .octet high (.triplet isHigh isLow sameHigh sameLow rest)⟩
        | octet low rest =>
          cases digits : Octet.isHexDigit high && Octet.isHexDigit low with
          | true =>
            exact ⟨.encoded high low, _, .encoded high low, _, by simp [UriChar.next?, digits],
              by simp [UriChar.next?, digits], rfl, rest⟩
          | false =>
            exact ⟨.plain percent, _, .plain percent, _, by simp [UriChar.next?, digits],
              by simp [UriChar.next?, digits], rfl, .octet high (.octet low rest)⟩
    · exact ⟨.plain first, _, .plain first, _, by simp [UriChar.next?, escape], by simp [UriChar.next?, escape], rfl,
        rest⟩

theorem small_ofBytes (same : Recased source other) :
    (Text.ofBytes other).small = (Text.ofBytes source).small := by
  -- An encoded octet is three octets of the source, so the induction is on how many are left.
  induction length : source.length using Nat.strongRecOn generalizing source other with
  | ind length ih =>
    rcases same.next? with ⟨rfl, rfl⟩ | ⟨character, rest, character', rest', read, read', alike, further⟩
    · rfl
    · have shorter := UriChar.length_of_next? read
      have step := UriChar.width_pos character
      have others := ih rest.length (by omega) further rfl
      rw [Text.ofBytes_of_next? read, Text.ofBytes_of_next? read']
      simp only [Text.small, List.map_cons, alike] at others ⊢
      rw [others]

end Bytes.Recased

namespace Token

/-- The text of a JSON string has the octets of its token, as they are written, without the first character and the
last one. -/
def Verbatim (source : Bytes) (token : Token) : Prop :=
  ∀ text, token.value = .json (.string text) →
    text.toList.flatMap String.utf8EncodeChar = Text.bytes (Text.ofBytes (token.octets source)).tail.dropLast

/-- Every JSON string in a token is verbatim. -/
def AllVerbatim (source : Bytes) (token : Token) : Prop :=
  ∀ inner : Token, inner.Inside token → inner.Verbatim source

variable {source : Bytes} {token : Token}

theorem allVerbatim_of_children (here : token.Verbatim source)
    (children : ∀ child ∈ token.children, child.AllVerbatim source) : token.AllVerbatim source := by
  intro inner inside
  cases inside with
  | self => exact here
  | child member within => exact children _ member inner within

theorem allVerbatim_of_composed (composed : token.value.bare = false)
    (children : ∀ child ∈ token.children, child.AllVerbatim source) : token.AllVerbatim source := by
  apply allVerbatim_of_children _ children
  intro text same
  rw [same] at composed
  cases composed

theorem AllVerbatim.withKind (all : token.AllVerbatim source) (kind : Kind) :
    (token.withKind kind).AllVerbatim source := by
  have here : (token.withKind kind).Verbatim source := all token .self
  apply allVerbatim_of_children here
  intro child member inner within
  exact all inner (.child member within)

end Token

theorem Meaning.jsonString_of_value? {meaning : Meaning} {text : Text} {string : String}
    (known : meaning.value? text = some (.json (.string string))) : meaning = .jsonString := by
  cases meaning with
  | jsonString => rfl
  | integer type range =>
    simp only [value?] at known
    split at known <;> cases known
  | name | term =>
    obtain ⟨_, _, same⟩ := Option.map_eq_some_iff.mp known
    cases same
  | null | typed _ | srid | jsonNumber | jsonBoolean _ | jsonNull => cases known

namespace Rule

theorem lexeme_verbatim {source : Bytes} {levels : Nat} (kind : Kind) (meaning : Meaning) (pattern : Pattern) :
    ((lexeme kind meaning pattern).parse levels).Shows source (Token.AllVerbatim source) := by
  intro start token stop inside read
  obtain ⟨text, value, taken, known, rfl⟩ := Parser.lexeme_iff.mp read
  have on := Pattern.parse_advances taken
  have octets : source.slice start.offset stop.offset = text.bytes := inside.slice on
  have childless := Value.children_of_bare (Meaning.bare_of_value? known)
  apply Token.allVerbatim_of_children
  · intro string same
    have same : value = .json (.string string) := same
    subst same
    show _ = Text.bytes (Text.ofBytes (source.slice start.offset stop.offset)).tail.dropLast
    rw [octets, Text.ofBytes_bytes_of_append (inside.symm.trans on.rest)]
    obtain rfl := Meaning.jsonString_of_value? known
    obtain ⟨decoded, read, same⟩ := Option.map_eq_some_iff.mp known
    cases same
    exact Utf8.decode?_eq_some_iff.mp read
  · intro child member
    have member : child ∈ value.children := member
    rw [childless] at member
    exact absurd member List.not_mem_nil

theorem inherited_verbatim (source : Bytes) : Inherited source (Token.AllVerbatim source) where
  lexeme _ kind meaning pattern _ _ := lexeme_verbatim kind meaning pattern
  composed _ _ composed _ children := Token.allVerbatim_of_composed composed children
  withType _ _ _ := Token.allVerbatim_of_children (fun _ same => by cases same) (List.forall_mem_nil _)
  withKind kind _ all := all.withKind kind

theorem tokenAt?_verbatim {rule : Rule} {source : Bytes} {offset : Nat} {token : Token}
    (steady : rule.steady = true) (clean : rule.clean = true) (fits : rule.Fits)
    (found : rule.tokenAt? source offset = some token) : token.AllVerbatim source := by
  obtain ⟨stop, read⟩ := (tokenAt?_iff steady fits).mp found
  exact (inherited_verbatim source).stepwise.shows maxDepth steady clean _ _ _ (.ofSource source offset) read

theorem find?_small {rule : Rule} (caseless : rule.Caseless) (levels : Nat) (source : Bytes) (offset : Nat) :
    (rule.find? levels source offset).map Token.erase =
      (rule.parse levels (Place.ofSource source offset).small).map fun found => found.1.erase := by
  rw [find?, Option.map_map]
  symm
  exact Parser.map_eq_of_rel (parse_caseless levels caseless _) fun _ _ alike => alike.token

theorem tokenAt?_recased {rule : Rule} {source other : Bytes} (steady : rule.steady = true) (fits : rule.Fits)
    (caseless : rule.Caseless) (same : source.Recased other) :
    (rule.tokenAt? source 0).map Token.erase = (rule.tokenAt? other 0).map Token.erase := by
  have start : (Place.ofSource other 0).small = (Place.ofSource source 0).small := by
    simp only [Place.ofSource, Cursor.place, Cursor.ofSource, Place.small, List.drop_zero, same.small_ofBytes]
  -- Each source is compared with the text in small digits, which is one and the same.
  rw [tokenAt?_eq steady fits, tokenAt?_eq steady fits, find?_small caseless, find?_small caseless, start]

end Rule

namespace Grammar

/-- The letter case of hexadecimal digits decides nothing. Both sources have a token or none has, and the tokens
are the same but for the texts of JSON strings, each of which is written as in its own source. -/
theorem letterCase_irrelevant :
    ∀ rule ∈ catalogue, ∀ source other : Bytes, source.Recased other →
      (rule.tokenAt? source 0).map Token.erase = (rule.tokenAt? other 0).map Token.erase ∧
      (∀ token, rule.tokenAt? source 0 = some token → token.AllVerbatim source) ∧
      ∀ token, rule.tokenAt? other 0 = some token → token.AllVerbatim other := by
  intro rule member source other same
  have steady := catalogue_steady rule member
  have fits := catalogue_fits rule member
  have verbatim (text : Bytes) (token : Token) (found : rule.tokenAt? text 0 = some token) :
      token.AllVerbatim text :=
    Rule.tokenAt?_verbatim steady (catalogue_clean rule member) fits found
  exact ⟨Rule.tokenAt?_recased steady fits (catalogue_caseless rule member) same, verbatim source, verbatim other⟩

/-- The array `%5b"%2B"]` and the array `%5B"%2b"]`. -/
theorem letterCase_irrelevant_array :
    let source : Bytes := [0x25, 0x35, 0x62, 0x22, 0x25, 0x32, 0x42, 0x22, 0x5D]
    let other : Bytes := [0x25, 0x35, 0x42, 0x22, 0x25, 0x32, 0x62, 0x22, 0x5D]
    primitiveArray ∈ catalogue ∧ source.Recased other ∧ (primitiveArray.tokenAt? source 0).isSome = true ∧
      (primitiveArray.tokenAt? source 0).map Token.erase = (primitiveArray.tokenAt? other 0).map Token.erase ∧
      (∀ token, primitiveArray.tokenAt? source 0 = some token → token.AllVerbatim source) ∧
      ∀ token, primitiveArray.tokenAt? other 0 = some token → token.AllVerbatim other := by
  intro source other
  have member : primitiveArray ∈ catalogue := by simp [catalogue, jsonCatalogue]
  have same : source.Recased other :=
    .triplet rfl rfl rfl rfl (.octet _ (.triplet rfl rfl rfl rfl (.octet _ (.octet _ .nil))))
  have found : (primitiveArray.tokenAt? source 0).isSome = true := by rfl
  exact ⟨member, same, found, letterCase_irrelevant primitiveArray member source other same⟩

end Grammar

end ODataLiteral
