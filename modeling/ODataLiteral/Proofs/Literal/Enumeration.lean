import ODataLiteral.Proofs.Extraction
import ODataLiteral.Proofs.Literal.Narrowest
import ODataLiteral.Proofs.Literal.String
import ODataLiteral.Proofs.Rule.Composite

/-! Enumerations. What is read of one is what is written: names with dots between them, and between two quotes members
with commas between them. So a member is read as it is written and stands where it stands, and nothing is left out. -/
namespace ODataLiteral

open Abnf (Derives)
open Bytes (IsNumeral)
open Pattern
open Utf8 (encode)

/-- Up to 128 octets that go on with a name, of which the first may begin one. -/
structure Bytes.IsIdentifier (octets : Bytes) : Prop where
  starts : ∃ first, octets.head? = some first ∧ Octet.isNameStart first = true
  every : ∀ octet ∈ octets, Octet.isNameChar octet = true
  few : octets.length ≤ 128

theorem Bytes.IsIdentifier.ne_nil {octets : Bytes} (identifier : octets.IsIdentifier) : octets ≠ [] := by
  rintro rfl
  obtain ⟨_, ⟨⟩, _⟩ := identifier.starts

namespace Enumeration

/-- A member as it is written: by its name, or by the sign and the digits of its value. -/
inductive Member where
  | name (text : String)
  | value (sign digits : Bytes)

namespace Member

def octets : Member → Bytes
  | name text => encode text
  | value sign digits => sign ++ digits

/-- A member by name is an identifier, and one by value is a numeral in the range of 64 bits. -/
def Valid : Member → Prop
  | name text => Bytes.IsIdentifier (encode text)
  | value sign digits => IsNumeral sign digits ∧ IntegerType.int64.admits sign digits = true

def kind : Member → Kind
  | name _ => .enumMember
  | value _ _ => .enumMemberValue

def meaning : Member → Value
  | name text => .identifier text
  | value _ _ => .typed .int64

def token (member : Member) (offset : Nat) : Token :=
  ⟨member.kind, ⟨offset, offset + member.octets.length⟩, member.meaning⟩

/-- Where a member ends: no character of a name follows a name, and no digit a value. -/
def endsBefore : Member → UriChar → Bool
  | name _, character => !character.isNameChar
  | value _ _, character => !character.isDigit

end Member

/-- Items in a row, each after the first one with a separator before it. -/
def row {Item : Type} (octets : Item → Bytes) (first : Item) (others : List (Bytes × Item)) : Bytes :=
  octets first ++ others.flatMap fun other => other.1 ++ octets other.2

/-- The tokens of members that stand in a row from an offset on. -/
def tokens (first : Member) (others : List (Bytes × Member)) (offset : Nat) : List Token :=
  first.token offset :: match others with
    | [] => []
    | (separator, next) :: others => tokens next others (offset + first.octets.length + separator.length)

end Enumeration

/-- An enumeration as it is written: two names or more, a quote, a member or more with commas between them, and a
quote. -/
structure Enumeration where
  names : List String
  opening : Bytes
  first : Enumeration.Member
  others : List (Bytes × Enumeration.Member)
  closing : Bytes
  qualified : 2 ≤ names.length
  identifiers : ∀ name ∈ names, Bytes.IsIdentifier (encode name)
  opens : Derives Abnf.singleQuote opening
  valid : first.Valid
  separated : ∀ other ∈ others, Derives (Abnf.mark ',') other.1 ∧ other.2.Valid
  closes : Derives Abnf.singleQuote closing

namespace Enumeration

def typeName (enumeration : Enumeration) : String :=
  ".".intercalate enumeration.names

def octets (enumeration : Enumeration) : Bytes :=
  encode enumeration.typeName ++
    (enumeration.opening ++ (row Member.octets enumeration.first enumeration.others ++ enumeration.closing))

def members (enumeration : Enumeration) : List Member :=
  enumeration.first :: enumeration.others.map Prod.snd

def token (enumeration : Enumeration) (offset : Nat) : Token where
  kind := .enumeration
  span := ⟨offset, offset + enumeration.octets.length⟩
  value := .enumeration enumeration.typeName (tokens enumeration.first enumeration.others
    (offset + (encode enumeration.typeName).length + enumeration.opening.length))

theorem valid_of_mem (enumeration : Enumeration) : ∀ member ∈ enumeration.members, member.Valid :=
  List.forall_mem_cons.mpr ⟨enumeration.valid,
    List.forall_mem_map.mpr fun other among => (enumeration.separated other among).2⟩

theorem row_cons {Item : Type} (octets : Item → Bytes) (first next : Item) (separator : Bytes)
    (others : List (Bytes × Item)) :
    row octets first ((separator, next) :: others) = octets first ++ (separator ++ row octets next others) := by
  simp [row]

theorem offset_octets (enumeration : Enumeration) (offset : Nat) : offset + enumeration.octets.length =
    offset + (encode enumeration.typeName).length + enumeration.opening.length +
      (row Member.octets enumeration.first enumeration.others ++ enumeration.closing).length := by
  rw [octets, List.length_append, List.length_append, ← Nat.add_assoc, ← Nat.add_assoc]

section Names

variable {octets : Bytes}

theorem isIdentifier_iff : Bytes.IsIdentifier octets ↔ Derives Abnf.identifier octets := by
  have clean : Octet.isNameStart UriChar.percent = false := rfl
  have cleanToo : Octet.isNameChar UriChar.percent = false := rfl
  rw [Abnf.identifier, Abnf.derives_mul_iff]
  simp only [Abnf.derives_raw_iff clean, Abnf.derives_repeated_raw_iff cleanToo]
  constructor
  · rintro ⟨⟨first, head, starts⟩, every, few⟩
    obtain ⟨others, rfl⟩ := List.head?_eq_some_iff.mp head
    refine ⟨[first], others, ⟨first, starts, rfl⟩, ⟨Nat.zero_le _, ?_, (List.forall_mem_cons.mp every).2⟩, rfl⟩
    rintro _ ⟨⟩
    exact Nat.le_of_succ_le_succ few
  · rintro ⟨_, others, ⟨first, starts, rfl⟩, ⟨_, few, every⟩, rfl⟩
    refine ⟨⟨first, rfl, starts⟩, List.forall_mem_cons.mpr ⟨?_, every⟩, Nat.succ_le_succ (few _ rfl)⟩
    rw [Octet.isNameChar, starts, Bool.true_or]

theorem encode_append (one two : String) : encode (one ++ two) = encode one ++ encode two := by
  rw [encode, String.toList_append, List.flatMap_append]
  rfl

theorem encode_intercalate (first : String) (others : List String) : encode (".".intercalate (first :: others)) =
    row encode first (others.map fun name => (['.'.toUInt8], name)) := by
  induction others generalizing first with
  | nil => simp [row]
  | cons next others ih =>
    have dot : encode "." = ['.'.toUInt8] := rfl
    have parts : ".".intercalate (first :: next :: others) = first ++ "." ++ ".".intercalate (next :: others) := by
      rw [← String.toList_inj]
      simp
    rw [parts, encode_append, encode_append, ih, dot, List.map_cons, row_cons, List.append_assoc]

theorem Bytes.IsIdentifier.exists_name (identifier : octets.IsIdentifier) : ∃ name, encode name = octets := by
  have low (octet : UInt8) (member : octet ∈ octets) : octet < 0x80 :=
    Grammar.low_of_isNameChar (identifier.every octet member)
  obtain ⟨name, decoded⟩ := ODataLiteral.exists_name low
  exact ⟨name, encode_of_decode? decoded⟩

theorem derives_qualifiedName_iff : Derives Abnf.qualifiedName octets ↔ ∃ names : List String, 2 ≤ names.length ∧
    (∀ name ∈ names, Bytes.IsIdentifier (encode name)) ∧ octets = encode (".".intercalate names) := by
  have dot (octets : Bytes) : Derives (Abnf.raw (· == '.'.toUInt8)) octets ↔ octets = ['.'.toUInt8] := by
    rw [Abnf.derives_raw_iff rfl]
    simp
  simp only [Abnf.qualifiedName, Abnf.derives_mul_iff, Abnf.derives_repeated_iff, dot, ← isIdentifier_iff]
  constructor
  · rintro ⟨before, _, identifier, ⟨parts, enough, _, every, rfl⟩, rfl⟩
    have split (part : Bytes) (member : part ∈ parts) :
        ∃ after : Bytes, part = '.'.toUInt8 :: after ∧ after.IsIdentifier := by
      obtain ⟨_, after, rfl, identifier, rfl⟩ := every part member
      exact ⟨after, rfl, identifier⟩
    have spelled : parts ∈ Set.range (List.map fun name => '.'.toUInt8 :: encode name) := by
      rw [Set.range_list_map]
      intro part member
      obtain ⟨_, rfl, identifier⟩ := split part member
      obtain ⟨name, rfl⟩ := Bytes.IsIdentifier.exists_name identifier
      exact ⟨name, rfl⟩
    obtain ⟨first, rfl⟩ := Bytes.IsIdentifier.exists_name identifier
    obtain ⟨others, rfl⟩ := spelled
    refine ⟨first :: others, ?_, List.forall_mem_cons.mpr ⟨identifier, fun name member => ?_⟩, ?_⟩
    · simpa using enough
    · obtain ⟨_, same, identifier⟩ := split _ (List.mem_map.mpr ⟨name, member, rfl⟩)
      rwa [(List.cons.inj same).2]
    · rw [encode_intercalate, row, List.flatMap_map, List.flatMap_def]
      rfl
  · rintro ⟨names, enough, identifiers, rfl⟩
    cases names with
    | nil => cases enough
    | cons first others =>
      obtain ⟨identifier, identifiers⟩ := List.forall_mem_cons.mp identifiers
      rw [encode_intercalate, row, List.flatMap_map, List.flatMap_def]
      refine ⟨_, _, identifier, ⟨others.map fun name => '.'.toUInt8 :: encode name, ?_, ?_, ?_, rfl⟩, rfl⟩
      · rw [List.length_map]
        exact Nat.le_of_succ_le_succ enough
      · rintro _ ⟨⟩
      · intro part member
        obtain ⟨name, among, rfl⟩ := List.mem_map.mp member
        exact ⟨_, _, rfl, identifiers name among, rfl⟩

end Names

section Members

variable {source octets more : Bytes} {offset stop : Nat} {token : Token}

theorem identifier_exactly : Pattern.identifier.Exactly fun character => !character.isNameChar := by
  have names : UriChar.Apart (fun character => !character.isNameChar) UriChar.isNameChar :=
    fun character other => Bool.eq_false_of_not_eq_true' other
  refine (takes_of_deterministic (by decide) (identifier_deterministic names)).exactly (by decide) ?_
  intro text taken rest read
  obtain ⟨_, _, _, _, ahead, _⟩ := split_seq_iff.mp read
  obtain ⟨next, _, rfl⟩ := split_notBefore_char_iff.mp ahead
  exact next

theorem identifier_tokenAt?_iff : Grammar.identifier.tokenAt? source offset = some token ↔
    ∃ name, Bytes.IsIdentifier (encode name) ∧ encode name <+: source.drop offset ∧
      HeadIn (fun character => !character.isNameChar)
        (Text.ofBytes (source.drop (offset + (encode name).length))) ∧
      token = ⟨.identifier, ⟨offset, offset + (encode name).length⟩, .identifier name⟩ := by
  rw [Grammar.identifier,
    Rule.tokenAt?_lexeme_stands_iff identifier_exactly (by decide) (by decide) Grammar.identifier_fits]
  simp only [language_identifier, ← isIdentifier_iff, Meaning.value?, Text.bytes_ofBytes]
  constructor
  · rintro ⟨_, _, identifier, stands, next, known, rfl⟩
    obtain ⟨name, decoded, rfl⟩ := Option.map_eq_some_iff.mp known
    obtain rfl := encode_of_decode? decoded
    exact ⟨name, identifier, stands, next, rfl⟩
  · rintro ⟨name, identifier, stands, next, rfl⟩
    exact ⟨_, _, identifier, stands, next, Option.map_eq_some_iff.mpr ⟨name, Utf8.decode?_eq_some_iff.mpr rfl, rfl⟩,
      rfl⟩

theorem integer_tokenAt?_iff {integer : IntegerType} (documents : integer.Documents) :
    integer.rule.tokenAt? source offset = some token ↔
      ∃ sign digits, IsNumeral sign digits ∧ integer.admits sign digits = true ∧
        sign ++ digits <+: source.drop offset ∧
        HeadIn (fun character => !character.isDigit)
          (Text.ofBytes (source.drop (offset + (sign ++ digits).length))) ∧
        token = ⟨.literal, ⟨offset, offset + (sign ++ digits).length⟩, .typed integer.type⟩ := by
  have ahead (stop : Nat) : ¬ Abnf.Begins Abnf.digit (source.drop stop) ↔
      HeadIn (fun character => !character.isDigit) (Text.ofBytes (source.drop stop)) :=
    not_begins_character_iff rfl
  rw [IntegerType.tokenAt?_iff documents]
  simp only [ahead, IntegerType.admits_iff]
  constructor
  · rintro ⟨stop, sign, digits, numeral, next, low, high, rfl⟩
    have digit := numeral.isNumeral.filled
    obtain ⟨stands, rfl⟩ := (Bytes.slice_eq_iff (List.append_ne_nil_of_right_ne_nil sign digit)).mp
      ⟨numeral.inside, numeral.octets⟩
    exact ⟨sign, digits, numeral.isNumeral, ⟨numeral.signs.imp_right And.left, numeral.few, low, high⟩, stands,
      next, rfl⟩
  · rintro ⟨sign, digits, numeral, ⟨signed, few, low, high⟩, stands, next, rfl⟩
    obtain ⟨inside, octets⟩ := (Bytes.slice_eq_iff (List.append_ne_nil_of_right_ne_nil sign numeral.filled)).mpr
      ⟨stands, rfl⟩
    refine ⟨_, sign, digits, ⟨inside, octets, ?_, List.length_pos_iff.mpr numeral.filled, few, numeral.every⟩, next,
      low, high, rfl⟩
    rcases numeral.signs with none | sign
    · exact .inl none
    · exact signed.imp_right fun signed => ⟨signed, sign⟩

theorem int64_documents : IntegerType.int64.Documents :=
  IntegerType.all_document IntegerType.int64 (by simp [IntegerType.all])

theorem enumMember_regular : Grammar.enumMember.steady = true ∧ Grammar.enumMember.Fits :=
  ⟨by decide, Grammar.identifier_fits, int64_documents.fits⟩

theorem enumMember_tokenAt?_iff : Grammar.enumMember.tokenAt? source offset = some token ↔
    ∃ member : Member, member.Valid ∧ member.octets <+: source.drop offset ∧
      HeadIn member.endsBefore (Text.ofBytes (source.drop (offset + member.octets.length))) ∧
      token = member.token offset := by
  have identifier : Grammar.identifier.steady = true := by decide
  have int64 : Grammar.int64.steady = true := by decide
  have either : Grammar.enumMember.tokenAt? source offset = some token ↔
      (Rule.withKind .enumMember Grammar.identifier).tokenAt? source offset = some token ∨
        (Rule.withKind .enumMemberValue Grammar.int64).tokenAt? source offset = some token :=
    Rule.tokenAt?_orElse_iff identifier int64 Grammar.identifier_fits int64_documents.fits
      Grammar.int64_apart_identifier
  rw [either, Rule.tokenAt?_withKind_iff identifier Grammar.identifier_fits,
    Rule.tokenAt?_withKind_iff int64 int64_documents.fits]
  simp only [identifier_tokenAt?_iff, show Grammar.int64 = IntegerType.int64.rule from rfl,
    integer_tokenAt?_iff int64_documents]
  constructor
  · rintro (⟨_, ⟨text, identifier, stands, next, rfl⟩, rfl⟩ |
      ⟨_, ⟨sign, digits, numeral, admitted, stands, next, rfl⟩, rfl⟩)
    · exact ⟨.name text, identifier, stands, next, rfl⟩
    · exact ⟨.value sign digits, ⟨numeral, admitted⟩, stands, next, rfl⟩
  · rintro ⟨member, valid, stands, next, rfl⟩
    cases member with
    | name text => exact .inl ⟨_, ⟨text, valid, stands, next, rfl⟩, rfl⟩
    | value sign digits => exact .inr ⟨_, ⟨sign, digits, valid.1, valid.2, stands, next, rfl⟩, rfl⟩

theorem headIn_delimiter {mark : Char} (derived : Derives (Abnf.mark mark) octets)
    (stands : octets <+: source.drop offset) :
    HeadIn (UriChar.isDelimiter mark) (Text.ofBytes (source.drop offset)) := by
  obtain ⟨character, isMark, legible, rfl⟩ := Abnf.derives_mark_iff.mp derived
  obtain ⟨rest, same⟩ := stands
  rw [← same, Text.ofBytes_character_append legible]
  rintro _ ⟨⟩
  exact isMark

theorem delimiter_takes (mark : Char) : (delimiter mark).Takes Grammar.anything :=
  Grammar.takes_char (UriChar.isDelimiter mark) _

/-- Neither a name nor a value goes on with a comma or a quote. -/
theorem Member.endsBefore_of_delimiter (member : Member) {mark : Char} {character : UriChar}
    (other : Octet.isNameChar mark.toUInt8 = false) (isMark : character.isDelimiter mark = true) :
    member.endsBefore character = true := by
  have names : UriChar.Apart (UriChar.isDelimiter mark) UriChar.isNameChar :=
    UriChar.Apart.symm (UriChar.apart_delimiter other fun _ _ => rfl)
  have digits : UriChar.Apart (UriChar.isDelimiter mark) UriChar.isDigit := by
    refine UriChar.Apart.symm (UriChar.apart_delimiter ?_ fun _ _ => rfl)
    exact (Bool.or_eq_false_iff.mp other).2
  cases member with
  | name _ => exact congrArg not (names character isMark)
  | value _ _ => exact congrArg not (digits character isMark)

theorem octets_ne_nil {member : Member} (valid : member.Valid) : member.octets ≠ [] := by
  cases member with
  | name text => exact Bytes.IsIdentifier.ne_nil valid
  | value sign digits => exact List.append_ne_nil_of_right_ne_nil sign valid.1.filled

end Members

section Rows

variable {source closing : Bytes} {offset : Nat} {start stop : Place} {read : List Token} {first : Member}
  {others : List (Bytes × Member)}

theorem exists_row_of_items
    (run : Parser.Items (Grammar.enumMember.parse maxDepth) comma Pattern.quote start read stop)
    (here : start = Place.ofSource source offset) : ∃ first others closing, first.Valid ∧
      (∀ other ∈ others, Derives (Abnf.mark ',') other.1 ∧ other.2.Valid) ∧ Derives Abnf.singleQuote closing ∧
      row Member.octets first others ++ closing <+: source.drop offset ∧ read = tokens first others offset ∧
      stop = Place.ofSource source (offset + (row Member.octets first others ++ closing).length) := by
  have member {offset : Nat} {token : Token} {after : Place}
      (one : Grammar.enumMember.parse maxDepth (Place.ofSource source offset) = some (token, after)) :
      ∃ member : Member, member.Valid ∧ member.octets <+: source.drop offset ∧ token = member.token offset ∧
        after = Place.ofSource source (offset + member.octets.length) := by
    obtain ⟨found, rfl⟩ := (Rule.parse_ofSource_iff enumMember_regular.1 enumMember_regular.2).mp one
    obtain ⟨member, valid, stands, _, rfl⟩ := enumMember_tokenAt?_iff.mp found
    exact ⟨member, valid, stands, rfl, rfl⟩
  -- One step of the run is a member and what separates it; the others stand behind both.
  induction run generalizing offset with
  | last one closed =>
    subst here
    obtain ⟨first, valid, stands, rfl, rfl⟩ := member one
    obtain ⟨closes, standsToo, rfl⟩ := Pattern.prefix_of_parse rfl rfl closed
    rw [language_quote] at closes
    refine ⟨first, [], _, valid, List.forall_mem_nil _, closes, ?_, rfl, ?_⟩
    · rw [row, List.flatMap_nil, List.append_nil, Bytes.append_prefix_drop_iff]
      exact ⟨stands, standsToo⟩
    · rw [row, List.flatMap_nil, List.append_nil, List.length_append, Nat.add_assoc]
  | @more _ _ _ _ _ _ gap one _ between _ ih =>
    subst here
    obtain ⟨first, valid, stands, rfl, rfl⟩ := member one
    obtain ⟨separates, standsToo, rfl⟩ := Pattern.prefix_of_parse rfl rfl between
    obtain ⟨next, others, closing, validToo, separated, closes, further, rfl, rfl⟩ := ih rfl
    rw [comma, language_delimiter] at separates
    refine ⟨first, (Text.bytes gap, next) :: others, closing, valid,
      List.forall_mem_cons.mpr ⟨⟨separates, validToo⟩, separated⟩, closes, ?_, rfl, ?_⟩
    · rw [row_cons, List.append_assoc, List.append_assoc, Bytes.append_prefix_drop_iff, Bytes.append_prefix_drop_iff]
      exact ⟨stands, standsToo, further⟩
    · rw [row_cons, List.append_assoc, List.append_assoc]
      generalize row Member.octets next others ++ closing = behind
      rw [List.length_append, List.length_append, ← Nat.add_assoc, ← Nat.add_assoc]

theorem items_of_row (valid : first.Valid)
    (separated : ∀ other ∈ others, Derives (Abnf.mark ',') other.1 ∧ other.2.Valid)
    (closes : Derives Abnf.singleQuote closing)
    (stands : row Member.octets first others ++ closing <+: source.drop offset) :
    Parser.Items (Grammar.enumMember.parse maxDepth) comma Pattern.quote (Place.ofSource source offset)
      (tokens first others offset)
      (Place.ofSource source (offset + (row Member.octets first others ++ closing).length)) := by
  have member {offset : Nat} {member : Member} {octets : Bytes} {mark : Char} (valid : member.Valid)
      (other : Octet.isNameChar mark.toUInt8 = false) (derived : Derives (Abnf.mark mark) octets)
      (stands : member.octets <+: source.drop offset)
      (next : octets <+: source.drop (offset + member.octets.length)) :
      Grammar.enumMember.parse maxDepth (Place.ofSource source offset) =
        some (member.token offset, Place.ofSource source (offset + member.octets.length)) := by
    refine (Rule.parse_ofSource_iff enumMember_regular.1 enumMember_regular.2).mpr ⟨?_, rfl⟩
    refine enumMember_tokenAt?_iff.mpr ⟨member, valid, stands, ?_, rfl⟩
    exact (headIn_delimiter derived next).mono fun character => member.endsBefore_of_delimiter other
  -- Before a comma the closing quote is refused, so the run goes on; before the quote it ends.
  induction others generalizing first offset with
  | nil =>
    rw [row, List.flatMap_nil, List.append_nil] at stands ⊢
    obtain ⟨one, behind⟩ := Bytes.append_prefix_drop_iff.mp stands
    have quoted : Derives Pattern.quote.language closing := by rwa [language_quote]
    have closed := (delimiter_takes '\'').parse_ofSource quoted behind fun _ _ => rfl
    rw [List.length_append, ← Nat.add_assoc]
    exact .last (member valid (by decide) closes one behind) closed
  | cons other others ih =>
    obtain ⟨separator, next⟩ := other
    obtain ⟨⟨separates, validToo⟩, separated⟩ := List.forall_mem_cons.mp separated
    rw [row_cons, List.append_assoc, List.append_assoc] at stands ⊢
    obtain ⟨one, behind⟩ := Bytes.append_prefix_drop_iff.mp stands
    obtain ⟨gap, further⟩ := Bytes.append_prefix_drop_iff.mp behind
    have comma : Derives comma.language separator := by rwa [Pattern.comma, language_delimiter]
    have between := (delimiter_takes ',').parse_ofSource comma gap fun _ _ => rfl
    have goesOn : Pattern.quote.parse (Place.ofSource source (offset + first.octets.length)) = none := by
      rw [Pattern.parse_eq_none]
      refine split_eq_none_of_head rfl rfl fun character next => ?_
      exact UriChar.delimiters_apart (by decide) character (headIn_delimiter separates gap character next)
    have run := ih validToo separated further
    rw [List.length_append, List.length_append, ← Nat.add_assoc, ← Nat.add_assoc]
    exact .more (member valid (by decide) separates one gap) goesOn between run

end Rows

section Whole

variable {source : Bytes} {offset : Nat} {token : Token}

theorem qualifiedName_takes : Pattern.qualifiedName.Takes (UriChar.isDelimiter '\'') := by
  refine takes_of_deterministic (by decide) (qualifiedName_deterministic ?_ (UriChar.Apart.symm ?_))
  · exact UriChar.Apart.symm (UriChar.apart_delimiter rfl fun _ _ => rfl)
  · exact plain_apart_delimiter rfl

theorem tokenAt?_iff : Grammar.enumeration.tokenAt? source offset = some token ↔
    ∃ enumeration : Enumeration, enumeration.octets <+: source.drop offset ∧ token = enumeration.token offset := by
  have regular : Grammar.enumeration.Regular := Grammar.primitives_regular _ (by simp [Grammar.primitives])
  constructor
  · intro found
    obtain ⟨stop, read⟩ := (Rule.tokenAt?_iff regular.1 regular.2).mp found
    obtain ⟨text, after, gap, start, members, name, named, opened, run, decoded, rfl⟩ :=
      Parser.enumeration_iff.mp read
    obtain ⟨isName, stands, rfl⟩ := Pattern.prefix_of_parse (by decide) (by decide) named
    obtain ⟨opens, standsToo, rfl⟩ := Pattern.prefix_of_parse rfl rfl opened
    obtain ⟨first, others, closing, valid, separated, closes, further, rfl, rfl⟩ :=
      exists_row_of_items (Parser.items_of_itemsWithin run) rfl
    rw [language_qualifiedName, derives_qualifiedName_iff] at isName
    rw [language_quote] at opens
    obtain ⟨names, qualified, identifiers, spelled⟩ := isName
    obtain rfl : name = ".".intercalate names := by
      rw [Utf8.decode?_eq_some_iff.mpr spelled.symm] at decoded
      exact (Option.some.inj decoded).symm
    rw [spelled] at stands standsToo further
    refine ⟨⟨names, Text.bytes gap, first, others, closing, qualified, identifiers, opens, valid, separated, closes⟩,
      ?_, ?_⟩
    · exact Bytes.append_prefix_drop_iff.mpr ⟨stands, Bytes.append_prefix_drop_iff.mpr ⟨standsToo, further⟩⟩
    · rw [Enumeration.token, offset_octets, spelled]
      rfl
  · rintro ⟨enumeration, stands, rfl⟩
    obtain ⟨name, further⟩ := Bytes.append_prefix_drop_iff.mp stands
    obtain ⟨gap, members⟩ := Bytes.append_prefix_drop_iff.mp further
    have isName : Derives Pattern.qualifiedName.language (encode enumeration.typeName) := by
      rw [language_qualifiedName, derives_qualifiedName_iff]
      exact ⟨_, enumeration.qualified, enumeration.identifiers, rfl⟩
    have quoted : Derives Pattern.quote.language enumeration.opening := by
      rw [language_quote]
      exact enumeration.opens
    have named := qualifiedName_takes.parse_ofSource isName name (headIn_delimiter enumeration.opens gap)
    have opened := (delimiter_takes '\'').parse_ofSource quoted gap fun _ _ => rfl
    have run := items_of_row enumeration.valid enumeration.separated enumeration.closes members
    have decoded : Utf8.decode? (Text.bytes (Text.ofBytes (encode enumeration.typeName))) =
        some enumeration.typeName := Utf8.decode?_eq_some_iff.mpr (Text.bytes_ofBytes _).symm
    have forward : (Grammar.enumMember.parse maxDepth).Forward := Rule.parse_forward maxDepth Grammar.enumMember
    refine (Rule.tokenAt?_iff regular.1 regular.2).mpr ⟨_, Parser.enumeration_iff.mpr
      ⟨_, _, _, _, _, _, named, opened, (Parser.items_iff forward rfl rfl).mpr run, decoded, ?_⟩⟩
    rw [Enumeration.token, offset_octets]
    rfl

end Whole

section Pieces

variable {Item : Type} {octets : Item → Bytes} {valid : Item → Prop} {separates : UriChar → Bool} {first : Item}
  {others : List (Bytes × Item)} {text : Text}

/-- Octets that spell a text without separators and without quotes. -/
def Clear (separates : UriChar → Bool) (octets : Bytes) : Prop :=
  ∃ text : Text, text.bytes = octets ∧ text.Legible ∧
    ∀ character ∈ text, separates character = false ∧ character.isDelimiter '\'' = false

/-- At its separators, a row is split into its items. -/
theorem exists_text_of_row (clear : ∀ item ∈ first :: others.map Prod.snd, Clear separates (octets item))
    (separated : ∀ other ∈ others, Derives (Abnf.character separates) other.1)
    (apart : UriChar.Apart separates (UriChar.isDelimiter '\'')) : ∃ text : Text,
      text.bytes = row octets first others ∧ text.Legible ∧
      (∀ character ∈ text, character.isDelimiter '\'' = false) ∧
      (text.splitOnP separates).map Text.bytes = (first :: others.map Prod.snd).map octets := by
  induction others generalizing first with
  | nil =>
    obtain ⟨text, spelled, legible, outside⟩ := clear first List.mem_cons_self
    refine ⟨text, by rw [spelled, row, List.flatMap_nil, List.append_nil], legible,
      fun character member => (outside character member).2, ?_⟩
    rw [List.splitOnP_eq_singleton fun character member => (outside character member).1]
    simp [spelled]
  | cons other others ih =>
    obtain ⟨separator, next⟩ := other
    obtain ⟨here, clear⟩ := List.forall_mem_cons.mp clear
    obtain ⟨separation, further⟩ := List.forall_mem_cons.mp separated
    obtain ⟨text, spelled, legible, outside⟩ := here
    obtain ⟨character, accepted, legibleToo, rfl⟩ := Abnf.derives_character_iff.mp separation
    obtain ⟨more, spelledToo, legibleMore, outsideToo, pieces⟩ := ih clear further
    refine ⟨text ++ character :: more, ?_, ?_, ?_, ?_⟩
    · rw [Text.bytes_append, Text.bytes_cons, spelled, spelledToo, row_cons]
    · exact List.forall_mem_append.mpr ⟨legible, List.forall_mem_cons.mpr ⟨legibleToo, legibleMore⟩⟩
    · refine List.forall_mem_append.mpr ⟨fun one member => (outside one member).2, ?_⟩
      exact List.forall_mem_cons.mpr ⟨apart character accepted, outsideToo⟩
    · rw [List.splitOnP_append_cons_of_forall_mem (fun one member => (outside one member).1) character accepted,
        List.map_cons, pieces, spelled]
      rfl

/-- A text whose pieces are items is a row of them. Up to where it is looked at, nothing separates. -/
theorem exists_row_of_text (front : Text) (clear : ∀ character ∈ front, separates character = false)
    (legible : ∀ character ∈ text, separates character = true → character.Legible)
    (items : ∀ piece ∈ (front ++ text).splitOnP separates, ∃ item, valid item ∧ octets item = Text.bytes piece) :
    ∃ first others, valid first ∧
      (∀ other ∈ others, Derives (Abnf.character separates) other.1 ∧ valid other.2) ∧
      row octets first others = Text.bytes (front ++ text) ∧
      others.length + 1 = ((front ++ text).splitOnP separates).length := by
  -- `front` is the piece that has begun: it grows until something separates, and then a new one begins.
  induction text generalizing front with
  | nil =>
    rw [List.append_nil] at items ⊢
    rw [List.splitOnP_eq_singleton clear] at items ⊢
    obtain ⟨item, isItem, spelled⟩ := items front List.mem_cons_self
    exact ⟨item, [], isItem, List.forall_mem_nil _, by rw [row, List.flatMap_nil, List.append_nil, spelled], rfl⟩
  | cons character text ih =>
    obtain ⟨here, legible⟩ := List.forall_mem_cons.mp legible
    cases accepted : separates character with
    | true =>
      rw [List.splitOnP_append_cons_of_forall_mem clear character accepted] at items ⊢
      obtain ⟨one, items⟩ := List.forall_mem_cons.mp items
      obtain ⟨item, isItem, spelled⟩ := one
      obtain ⟨next, others, isItemToo, separated, spelledToo, count⟩ := ih [] (List.forall_mem_nil _) legible items
      have separation : Derives (Abnf.character separates) character.bytes :=
        Abnf.derives_character_iff.mpr ⟨character, accepted, here accepted, rfl⟩
      refine ⟨item, (character.bytes, next) :: others, isItem,
        List.forall_mem_cons.mpr ⟨⟨separation, isItemToo⟩, separated⟩, ?_, congrArg Nat.succ count⟩
      rw [row_cons, spelled, spelledToo, List.nil_append, Text.bytes_append, Text.bytes_cons]
    | false =>
      have moved : front ++ character :: text = (front ++ [character]) ++ text := by simp
      rw [moved] at items ⊢
      refine ih _ (List.forall_mem_append.mpr ⟨clear, ?_⟩) legible items
      exact List.forall_mem_singleton.mpr accepted

end Pieces

section Splitting

variable {source : Bytes} {offset : Nat} {front body rest : Text} {opening closing : UriChar}

theorem quote_ends_name : UriChar.Apart UriChar.isNameChar (UriChar.isDelimiter '\'') :=
  UriChar.apart_delimiter rfl fun _ _ => rfl

theorem identifier_clear {octets : Bytes} {separates : UriChar → Bool} (identifier : octets.IsIdentifier)
    (apart : UriChar.Apart UriChar.isNameChar separates) : Clear separates octets := by
  refine ⟨octets.map UriChar.plain, Text.bytes_plain octets, Text.legible_plain fun percent => ?_, ?_⟩
  · exact absurd (identifier.every _ percent) (by decide)
  · refine List.forall_mem_map.mpr fun octet member => ?_
    have name : UriChar.isNameChar (.plain octet) = true := identifier.every octet member
    exact ⟨apart _ name, quote_ends_name _ name⟩

theorem member_clear {member : Member} (valid : member.Valid) : Clear (UriChar.isDelimiter ',') member.octets := by
  cases member with
  | name text => exact identifier_clear valid (UriChar.apart_delimiter rfl fun _ _ => rfl)
  | value sign digits =>
    have digit {mark : Char} (other : Octet.isDigit mark.toUInt8 = false) :
        UriChar.Apart UriChar.isDigit (UriChar.isDelimiter mark) := UriChar.apart_delimiter other fun _ _ => rfl
    have comma : UriChar.Apart UriChar.isSign (UriChar.isDelimiter ',') :=
      UriChar.Apart.or (plain_apart_delimiter rfl) (UriChar.delimiters_apart (by decide))
    have quote : UriChar.Apart UriChar.isSign (UriChar.isDelimiter '\'') :=
      UriChar.Apart.or (plain_apart_delimiter rfl) (UriChar.delimiters_apart (by decide))
    obtain ⟨⟨signs, _, every⟩, _⟩ := valid
    have counted : Text.Legible (digits.map UriChar.plain) := by
      refine Text.legible_plain fun percent => ?_
      cases every _ percent
    have clear : ∀ character ∈ digits.map UriChar.plain,
        character.isDelimiter ',' = false ∧ character.isDelimiter '\'' = false :=
      List.forall_mem_map.mpr fun octet member =>
        ⟨digit rfl _ (every octet member), digit rfl _ (every octet member)⟩
    rcases signs with rfl | signed
    · exact ⟨_, Text.bytes_plain digits, counted, clear⟩
    · obtain ⟨character, isSign, legible, rfl⟩ := Abnf.derives_sign_iff.mp signed
      refine ⟨character :: digits.map UriChar.plain, ?_, List.forall_mem_cons.mpr ⟨legible, counted⟩,
        List.forall_mem_cons.mpr ⟨⟨comma _ isSign, quote _ isSign⟩, clear⟩⟩
      rw [Text.bytes_cons, Text.bytes_plain, Member.octets]

theorem append_cons_inj {accepts : UriChar → Bool} {front front' more more' : Text} {mark mark' : UriChar}
    (clear : ∀ character ∈ front, accepts character = false) (accepted : accepts mark = true)
    (clearToo : ∀ character ∈ front', accepts character = false) (acceptedToo : accepts mark' = true)
    (same : front ++ mark :: more = front' ++ mark' :: more') : front = front' ∧ mark = mark' ∧ more = more' := by
  have behind {front more : Text} {mark : UriChar} (clear : ∀ character ∈ front, accepts character = false)
      (accepted : accepts mark = true) : (front ++ mark :: more).dropWhile (!accepts ·) = mark :: more := by
    rw [List.dropWhile_append_of_pos fun character member => congrArg not (clear character member),
      List.dropWhile_cons_of_neg (by simp [accepted])]
  have rest : mark :: more = mark' :: more' := by rw [← behind clear accepted, same, behind clearToo acceptedToo]
  rw [rest] at same
  exact ⟨List.append_cancel_right same, List.cons.inj rest⟩

/-- A delimiter in a decoded text spells itself, for it is no percent sign. -/
theorem legible_of_delimiter {octets : Bytes} {character : UriChar} {mark : Char}
    (isMark : character.isDelimiter mark = true) (noPercent : UriChar.isDelimiter mark (.plain UriChar.percent) = false)
    (member : character ∈ Text.ofBytes octets) : character.Legible := by
  have other : character ≠ .plain UriChar.percent := by
    rintro rfl
    cases noPercent.symm.trans isMark
  obtain ⟨before, after, same⟩ := List.append_of_mem member
  obtain ⟨_, here, _⟩ := Text.exists_rest_of_append same
  have one : Text.Legible [character] :=
    Text.legible_of_ofBytes (here.trans (List.singleton_append).symm) (by simpa using other.symm)
  exact one character List.mem_cons_self

theorem exists_text_of_names {names : List String} (qualified : 2 ≤ names.length)
    (identifiers : ∀ name ∈ names, Bytes.IsIdentifier (encode name)) : ∃ text : Text,
      text.bytes = encode (".".intercalate names) ∧ text.Legible ∧
      (∀ character ∈ text, character.isDelimiter '\'' = false) ∧
      (text.splitOnP (UriChar.isPlain (· == '.'.toUInt8))).map Text.bytes = names.map encode := by
  cases names with
  | nil => cases qualified
  | cons first others =>
    have same : (others.map fun name => (['.'.toUInt8], name)).map Prod.snd = others := by simp
    have clear : ∀ name ∈ first :: (others.map fun name => (['.'.toUInt8], name)).map Prod.snd,
        Clear (UriChar.isPlain (· == '.'.toUInt8)) (encode name) := fun name member =>
      identifier_clear (identifiers name (same ▸ member)) (UriChar.apart_plain rfl)
    have separated : ∀ other ∈ others.map fun name => (['.'.toUInt8], name),
        Derives (Abnf.character (UriChar.isPlain (· == '.'.toUInt8))) other.1 :=
      List.forall_mem_map.mpr fun _ _ => (Abnf.derives_raw_iff rfl).mpr ⟨_, rfl, rfl⟩
    have text := exists_text_of_row clear separated (plain_apart_delimiter rfl)
    rwa [← encode_intercalate, same] at text

theorem exists_names_of_text
    (identifiers : ∀ part ∈ front.splitOnP (UriChar.isPlain (· == '.'.toUInt8)), Bytes.IsIdentifier (Text.bytes part)) :
    ∃ names : List String, (∀ name ∈ names, Bytes.IsIdentifier (encode name)) ∧
      encode (".".intercalate names) = front.bytes ∧
      names.length = (front.splitOnP (UriChar.isPlain (· == '.'.toUInt8))).length := by
  have dots : ∀ character ∈ front, character.isPlain (· == '.'.toUInt8) = true → character.Legible := by
    intro character _ dot
    rw [UriChar.eq_plain dot]
    exact fun percent => absurd percent (by decide)
  have items : ∀ part ∈ ([] ++ front).splitOnP (UriChar.isPlain (· == '.'.toUInt8)),
      ∃ name, Bytes.IsIdentifier (encode name) ∧ encode name = Text.bytes part := by
    intro part member
    obtain ⟨name, spelled⟩ := Bytes.IsIdentifier.exists_name (identifiers part member)
    exact ⟨name, spelled ▸ identifiers part member, spelled⟩
  obtain ⟨first, others, identifier, separated, spelled, count⟩ :=
    exists_row_of_text [] (List.forall_mem_nil _) dots items
  have same : (others.map Prod.snd).map (fun name => (['.'.toUInt8], name)) = others := by
    rw [List.map_map]
    refine (List.map_congr_left fun other member => ?_).trans (List.map_id others)
    obtain ⟨octet, dot, single⟩ := (Abnf.derives_raw_iff rfl).mp (separated other member).1
    obtain rfl := beq_iff_eq.mp dot
    exact Prod.ext single.symm rfl
  refine ⟨first :: others.map Prod.snd, List.forall_mem_cons.mpr ⟨identifier, ?_⟩, ?_, ?_⟩
  · exact List.forall_mem_map.mpr fun other member => (separated other member).2
  · rw [encode_intercalate, same, spelled, List.nil_append]
  · rw [← List.nil_append front, ← count, List.length_cons, List.length_map]

/-- The characters of an enumeration: those of its name, a quote, those of its members, and a quote. -/
theorem exists_text (enumeration : Enumeration) : ∃ (name members : Text) (opening closing : UriChar),
    (∀ character ∈ name, character.isDelimiter '\'' = false) ∧ opening.isDelimiter '\'' = true ∧
    (∀ character ∈ members, character.isDelimiter '\'' = false) ∧ closing.isDelimiter '\'' = true ∧
    (name.splitOnP (UriChar.isPlain (· == '.'.toUInt8))).map Text.bytes = enumeration.names.map encode ∧
    (members.splitOnP (UriChar.isDelimiter ',')).map Text.bytes =
      enumeration.members.map Member.octets ∧
    ∀ tail, Text.ofBytes (enumeration.octets ++ tail) =
      name ++ opening :: (members ++ closing :: Text.ofBytes tail) := by
  obtain ⟨name, spelled, legible, clear, parts⟩ :=
    exists_text_of_names enumeration.qualified enumeration.identifiers
  have items : ∀ member ∈ enumeration.members, Clear (UriChar.isDelimiter ',') member.octets :=
    fun member among => member_clear (enumeration.valid_of_mem member among)
  have separated : ∀ other ∈ enumeration.others, Derives (Abnf.character (UriChar.isDelimiter ',')) other.1 := by
    rw [← Abnf.mark_eq]
    exact fun other among => (enumeration.separated other among).1
  obtain ⟨members, spelledToo, legibleToo, clearToo, pieces⟩ :=
    exists_text_of_row items separated (UriChar.delimiters_apart (by decide))
  obtain ⟨opening, opens, whole, isOpening⟩ := Abnf.derives_mark_iff.mp enumeration.opens
  obtain ⟨closing, closes, wholeToo, isClosing⟩ := Abnf.derives_mark_iff.mp enumeration.closes
  refine ⟨name, members, opening, closing, clear, opens, clearToo, closes, parts, pieces, fun tail => ?_⟩
  rw [octets, typeName, ← spelled, ← spelledToo, isOpening, isClosing]
  simp only [List.append_assoc]
  rw [Text.ofBytes_bytes_append legible, Text.ofBytes_character_append whole, Text.ofBytes_bytes_append legibleToo,
    Text.ofBytes_character_append wholeToo]

/-- Whatever stands before a quote and from there to the next quote, it is an enumeration if each piece of it is a name
or a member, and nothing is read of it otherwise. -/
theorem isSome_iff_pieces (opens : opening.isDelimiter '\'' = true) (closes : closing.isDelimiter '\'' = true)
    (outside : ∀ character ∈ front, character.isDelimiter '\'' = false)
    (inside : ∀ character ∈ body, character.isDelimiter '\'' = false)
    (stands : Text.ofBytes (source.drop offset) = front ++ opening :: (body ++ closing :: rest)) :
    (Grammar.enumeration.tokenAt? source offset).isSome = true ↔
      2 ≤ (front.splitOnP (UriChar.isPlain (· == '.'.toUInt8))).length ∧
      (∀ part ∈ front.splitOnP (UriChar.isPlain (· == '.'.toUInt8)), Bytes.IsIdentifier (Text.bytes part)) ∧
      ∀ item ∈ body.splitOnP (UriChar.isDelimiter ','), ∃ member : Member,
        member.Valid ∧ member.octets = Text.bytes item := by
  rw [Option.isSome_iff_exists]
  simp only [tokenAt?_iff]
  constructor
  · rintro ⟨_, enumeration, ⟨tail, same⟩, rfl⟩
    obtain ⟨name, members, _, _, clear, opensToo, clearToo, closesToo, parts, pieces, whole⟩ :=
      enumeration.exists_text
    -- Neither text has a quote before these, so the parts between the quotes are the same, and so are their pieces.
    have both := stands.symm.trans (same ▸ whole tail)
    obtain ⟨rfl, _, both⟩ := append_cons_inj outside opens clear opensToo both
    obtain ⟨rfl, _, _⟩ := append_cons_inj inside closes clearToo closesToo both
    refine ⟨?_, fun part member => ?_, fun item member => ?_⟩
    · have count := congrArg List.length parts
      rw [List.length_map, List.length_map] at count
      exact count ▸ enumeration.qualified
    · have isName : Text.bytes part ∈ enumeration.names.map encode := parts ▸ List.mem_map_of_mem member
      obtain ⟨name, among, spelled⟩ := List.mem_map.mp isName
      exact spelled ▸ enumeration.identifiers name among
    · have isMember : Text.bytes item ∈ enumeration.members.map Member.octets := pieces ▸ List.mem_map_of_mem member
      obtain ⟨member, among, spelled⟩ := List.mem_map.mp isMember
      exact ⟨member, enumeration.valid_of_mem member among, spelled⟩
  · rintro ⟨qualified, identifiers, items⟩
    -- The pieces are written again one after another, with the separators that stand there.
    obtain ⟨names, isName, spelled, count⟩ := exists_names_of_text identifiers
    have legible (character : UriChar) (mark : Char)
        (member : character ∈ front ++ opening :: (body ++ closing :: rest))
        (isMark : character.isDelimiter mark = true)
        (noPercent : UriChar.isDelimiter mark (.plain UriChar.percent) = false) : character.Legible :=
      legible_of_delimiter isMark noPercent (stands ▸ member)
    have commas : ∀ character ∈ body, character.isDelimiter ',' = true → character.Legible :=
      fun character member isComma => legible character ',' (by simp [member]) isComma rfl
    obtain ⟨first, others, valid, separated, spelledToo, _⟩ :=
      exists_row_of_text [] (List.forall_mem_nil _) commas items
    rw [← Abnf.mark_eq] at separated
    have opened : Derives Abnf.singleQuote opening.bytes :=
      Abnf.derives_mark_iff.mpr ⟨opening, opens, legible opening '\'' (by simp) opens rfl, rfl⟩
    have closed : Derives Abnf.singleQuote closing.bytes :=
      Abnf.derives_mark_iff.mpr ⟨closing, closes, legible closing '\'' (by simp) closes rfl, rfl⟩
    refine ⟨_, ⟨names, opening.bytes, first, others, closing.bytes, count ▸ qualified, isName, opened, valid, separated,
      closed⟩, ⟨rest.bytes, ?_⟩, rfl⟩
    rw [← Text.bytes_ofBytes (source.drop offset), stands, octets, typeName, spelled, spelledToo]
    simp [Text.bytes_append, Text.bytes_cons]

end Splitting

end Enumeration

namespace Grammar

open Enumeration (Member)

/-- An enumeration that is written at an offset is read there as it is written, whatever follows it, and nothing else is
read. So each piece of the name has to be an identifier and each piece between the quotes a member: one that is too long
or empty makes all of it no enumeration. -/
theorem enumeration_exact :
    (∀ (source : Bytes) (offset : Nat) (written : Enumeration), written.octets <+: source.drop offset →
      enumeration.tokenAt? source offset = some (written.token offset)) ∧
    (∀ (source : Bytes) (offset : Nat) (token : Token), enumeration.tokenAt? source offset = some token →
      ∃ written : Enumeration, written.octets <+: source.drop offset ∧ token = written.token offset) ∧
    ∀ (source : Bytes) (offset : Nat) (front body rest : Text) (opening closing : UriChar),
      opening.isDelimiter '\'' = true → closing.isDelimiter '\'' = true →
      (∀ character ∈ front, character.isDelimiter '\'' = false) →
      (∀ character ∈ body, character.isDelimiter '\'' = false) →
      Text.ofBytes (source.drop offset) = front ++ opening :: (body ++ closing :: rest) →
      ((enumeration.tokenAt? source offset).isSome = true ↔
        2 ≤ (front.splitOnP (UriChar.isPlain (· == '.'.toUInt8))).length ∧
        (∀ part ∈ front.splitOnP (UriChar.isPlain (· == '.'.toUInt8)), Bytes.IsIdentifier (Text.bytes part)) ∧
        ∀ item ∈ body.splitOnP (UriChar.isDelimiter ','), ∃ member : Member,
          member.Valid ∧ member.octets = Text.bytes item) := by
  refine ⟨fun source offset written stands => ?_, fun source offset token found => ?_, ?_⟩
  · exact Enumeration.tokenAt?_iff.mpr ⟨written, stands, rfl⟩
  · exact Enumeration.tokenAt?_iff.mp found
  · intro source offset front body rest opening closing opens closes outside inside stands
    exact Enumeration.isSome_iff_pieces opens closes outside inside stands

/-- Of `N.C'R,-1'` all is read, with the value after the name, and nothing of `N.C'R,'`, where a comma dangles. -/
theorem enumeration_exact_dangling :
    let source : Bytes := [0x4E, 0x2E, 0x43, 0x27, 0x52, 0x2C, 0x2D, 0x31, 0x27]
    let dangling : Bytes := [0x4E, 0x2E, 0x43, 0x27, 0x52, 0x2C, 0x27]
    enumeration.tokenAt? source 0 = some ⟨.enumeration, ⟨0, 9⟩, .enumeration "N.C"
        [⟨.enumMember, ⟨4, 5⟩, .identifier "R"⟩, ⟨.enumMemberValue, ⟨6, 8⟩, .typed .int64⟩]⟩ ∧
      (∃ written : Enumeration, written.octets <+: source ∧ written.names.length = 2) ∧
      enumeration.tokenAt? dangling 0 = none := by
  intro source dangling
  have letter (text : String) (octet : UInt8) (same : encode text = [octet])
      (starts : Octet.isNameStart octet = true) : Bytes.IsIdentifier (encode text) := by
    have every : Octet.isNameChar octet = true := by rw [Octet.isNameChar, starts, Bool.true_or]
    rw [same]
    exact ⟨⟨octet, rfl, starts⟩, List.forall_mem_singleton.mpr every, (by decide : 1 ≤ 128)⟩
  have mark (delimiter : Char) (octet : UInt8) (isMark : UriChar.isDelimiter delimiter (.plain octet) = true)
      (legible : UriChar.Legible (.plain octet)) : Derives (Abnf.mark delimiter) [octet] :=
    Abnf.derives_mark_iff.mpr ⟨.plain octet, isMark, legible, rfl⟩
  have minus : Derives Abnf.sign [0x2D] := Abnf.derives_sign_iff.mpr ⟨.plain 0x2D, rfl, by decide, rfl⟩
  have value : (Member.value [0x2D] [0x31]).Valid :=
    ⟨⟨.inr minus, List.cons_ne_nil _ _, List.forall_mem_singleton.mpr rfl⟩, by decide⟩
  have names : ∀ name ∈ ["N", "C"], Bytes.IsIdentifier (encode name) := by
    simp only [List.forall_mem_cons]
    exact ⟨letter "N" 0x4E rfl rfl, letter "C" 0x43 rfl rfl, List.forall_mem_nil _⟩
  let written : Enumeration := ⟨["N", "C"], [0x27], .name "R", [([0x2C], .value [0x2D] [0x31])], [0x27], by decide,
    names, mark '\'' 0x27 rfl (by decide), letter "R" 0x52 rfl rfl,
    List.forall_mem_singleton.mpr ⟨mark ',' 0x2C rfl (by decide), value⟩, mark '\'' 0x27 rfl (by decide)⟩
  have name : ".".intercalate ["N", "C"] = "N.C" := by decide
  have stands : written.octets <+: source := by
    rw [Enumeration.octets, Enumeration.typeName, name]
    exact List.prefix_rfl
  refine ⟨?_, ⟨written, stands, rfl⟩, ?_⟩
  · rw [enumeration_exact.1 source 0 written stands, Enumeration.token, Enumeration.octets,
      Enumeration.typeName, name]
    rfl
  · have outcome := enumeration_exact.2.2 dangling 0 (dangling.take 3 |>.map UriChar.plain)
      [.plain 0x52, .plain 0x2C] [] (.plain 0x27) (.plain 0x27) rfl rfl (by decide) (by decide) rfl
    rw [← Option.not_isSome_iff_eq_none, outcome]
    rintro ⟨_, _, items⟩
    obtain ⟨member, valid, nothing⟩ := items [] (by decide)
    exact Enumeration.octets_ne_nil valid nothing

end Grammar

end ODataLiteral
