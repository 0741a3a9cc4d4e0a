import ODataLiteral.Proofs.Base64Url
import ODataLiteral.Proofs.Literal.String
import ODataLiteral.Proofs.Rule.Longest

/-! Binary data between single quotes. Letters are taken four by four, and what is left for the two forms of an end are
fewer than four. Both forms are tried on the same letters, but only one of them fits their number, so the letters are
taken as a whole just where they are the encoding of some data. -/
namespace ODataLiteral

open Abnf (Derives)
open Base64Url (Canonical OptionallyPadded)
open Pattern (HeadIn)

namespace Abnf

/-- `base64char = ALPHA / DIGIT / "-" / "_"`. -/
def base64char : Language UriChar := raw Octet.isBase64

/-- `base64b16 = 2base64char ( "A" / "E" / "I" / "M" / "Q" / "U" / "Y" / "c" / "g" / "k" / "o" / "s" / "w" / "0" / "4" /
"8" ) [ "=" ]`. -/
def base64b16 : Language UriChar :=
  repeated 2 (some 2) base64char * raw (Octet.oneOf "AEIMQUYcgkosw048") * optional (raw (· == '='.toUInt8))

/-- `base64b8 = base64char ( "A" / "Q" / "g" / "w" ) [ "==" ]`. -/
def base64b8 : Language UriChar :=
  base64char * raw (Octet.oneOf "AQgw") * optional (word "==")

/-- `binaryValue = *(4base64char) [ base64b16 / base64b8 ]`. -/
def binaryValue : Language UriChar :=
  repeated 0 none (repeated 4 (some 4) base64char) * optional (base64b16 + base64b8)

/-- `binary = "binary" SQUOTE binaryValue SQUOTE`. -/
def binary : Language UriChar :=
  word "binary" * singleQuote * binaryValue * singleQuote

end Abnf

section Sound

variable {octets content : Bytes}

theorem Pattern.language_binary : Pattern.binary.language = Abnf.binary := by
  have unfolded : Pattern.binary.language = (Pattern.word "binary").language * Pattern.quote.language *
      Abnf.repeated 0 none (Abnf.repeated 4 (some 4) Abnf.base64char) *
      Abnf.optional (Abnf.base64b16 + Abnf.base64char * Abnf.raw (Octet.oneOf "AQgw") *
        Abnf.optional (Pattern.word "==").language) * Pattern.quote.language := rfl
  rw [unfolded, Pattern.language_word, Pattern.language_word, Pattern.quote, Pattern.language_delimiter, Abnf.binary,
    Abnf.binaryValue, ← mul_assoc]
  rfl

theorem padded_of_base64b16 (derived : Derives Abnf.base64b16 octets) :
    ∃ letters, Canonical letters ∧ OptionallyPadded letters octets := by
  obtain ⟨_, pad, letters, padded, rfl⟩ := Abnf.derives_mul_iff.mp derived
  obtain ⟨row, _, two, one, rfl⟩ := Abnf.derives_mul_iff.mp letters
  obtain ⟨enough, few, every⟩ := (Abnf.derives_repeated_raw_iff rfl).mp two
  obtain ⟨third, spare, rfl⟩ := (Abnf.derives_raw_iff rfl).mp one
  obtain ⟨first, second, rfl⟩ := List.length_eq_two.mp (Nat.le_antisymm (few 2 rfl) enough)
  obtain ⟨isLetter, unused⟩ := Base64Url.oneOf_two_iff.mp spare
  refine ⟨[first, second] ++ [third], ?_, ?_⟩
  · exact Base64Url.canonical_three_iff.mpr ⟨every first (by simp), every second (by simp), isLetter, unused⟩
  · rcases Abnf.derives_optional_iff.mp padded with rfl | sign
    · exact .inl (List.append_nil _)
    · obtain ⟨sign, same, rfl⟩ := (Abnf.derives_raw_iff rfl).mp sign
      rw [beq_iff_eq.mp same]
      exact .inr rfl

theorem padded_of_base64b8 (derived : Derives Abnf.base64b8 octets) :
    ∃ letters, Canonical letters ∧ OptionallyPadded letters octets := by
  obtain ⟨_, pad, letters, padded, rfl⟩ := Abnf.derives_mul_iff.mp derived
  obtain ⟨_, _, one, two, rfl⟩ := Abnf.derives_mul_iff.mp letters
  obtain ⟨first, isFirst, rfl⟩ := (Abnf.derives_raw_iff rfl).mp one
  obtain ⟨second, spare, rfl⟩ := (Abnf.derives_raw_iff rfl).mp two
  refine ⟨[first] ++ [second], ?_, ?_⟩
  · exact Base64Url.canonical_two_iff.mpr ⟨isFirst, Base64Url.oneOf_four_iff.mp spare⟩
  · rcases Abnf.derives_optional_iff.mp padded with rfl | signs
    · exact .inl (List.append_nil _)
    · rw [(Abnf.derives_word_iff (by decide)).mp signs]
      exact .inr rfl

/-- What the grammar has between the quotes is the encoding of some data. -/
theorem padded_of_binaryValue (derived : Derives Abnf.binaryValue content) :
    ∃ letters, Canonical letters ∧ OptionallyPadded letters content := by
  obtain ⟨_, rest, rows, tail, rfl⟩ := Abnf.derives_mul_iff.mp derived
  obtain ⟨groups, _, _, every, rfl⟩ := Abnf.derives_repeated_iff.mp rows
  have row (group : Bytes) (member : group ∈ groups) :
      group.length = 4 ∧ ∀ octet ∈ group, Octet.isBase64 octet = true := by
    obtain ⟨enough, few, letters⟩ := (Abnf.derives_repeated_raw_iff rfl).mp (every group member)
    exact ⟨Nat.le_antisymm (few 4 rfl) enough, letters⟩
  obtain ⟨letters, canonical, padded⟩ : ∃ letters, Canonical letters ∧ OptionallyPadded letters rest := by
    rcases Abnf.derives_optional_iff.mp tail with rfl | tail
    · exact ⟨[], Base64Url.canonical_nil, .inl rfl⟩
    · exact (Abnf.derives_add_iff.mp tail).elim padded_of_base64b16 padded_of_base64b8
  have fours := Base64Url.length_flatten_groups fun group member => (row group member).1
  refine ⟨groups.flatten ++ letters, (Base64Url.canonical_append_iff fours).mpr ⟨?_, canonical⟩, padded.append fours⟩
  intro octet member
  obtain ⟨group, inside, here⟩ := List.mem_flatten.mp member
  exact (row group inside).2 octet here

end Sound

section Complete

namespace Pattern

variable {letters content signs : Bytes} {first second third : UInt8} {last : UriChar} {rest behind : Text}

theorem quote_apart_base64 : UriChar.Apart (UriChar.isDelimiter '\'') (UriChar.isPlain Octet.isBase64) :=
  (plain_apart_delimiter rfl).symm

theorem quote_apart_signs : UriChar.Apart (UriChar.isDelimiter '\'') (word "==").leads := by
  have leads : (word "==").leads = fun character => character == .plain '='.toUInt8 := leads_of_filled rfl
  rw [leads]
  intro character isQuote
  refine beq_false_of_ne ?_
  rintro rfl
  cases isQuote

theorem base64Two_leads : base64Two.leads = UriChar.isPlain Octet.isBase64 :=
  (leads_of_filled rfl).trans (leads_of_filled rfl)

theorem base64One_leads : base64One.leads = UriChar.isPlain Octet.isBase64 :=
  (leads_of_filled rfl).trans (leads_of_filled rfl)

theorem groups_takes : (exactly 4 base64Char).Takes Grammar.anything :=
  takes_of_deterministic rfl ⟨trivial, rfl, .inl rfl⟩

theorem base64Two_takes : base64Two.Takes (UriChar.isDelimiter '\'') :=
  takes_of_deterministic rfl
    ⟨⟨⟨trivial, rfl, .inl rfl⟩, trivial⟩, trivial, rfl, .inr (plain_apart_delimiter rfl).symm⟩

theorem base64One_takes : base64One.Takes (UriChar.isDelimiter '\'') :=
  takes_of_deterministic rfl ⟨⟨trivial, trivial⟩, ⟨trivial, trivial⟩, rfl, .inr quote_apart_signs⟩

/-- After the letters comes an equals sign or a quote. -/
theorem headIn_of_signs (form : signs = [] ∨ signs = Base64Url.padding letters)
    (isQuote : last.isDelimiter '\'' = true) :
    HeadIn (fun character => !character.isPlain Octet.isBase64) (signs.map .plain ++ last :: rest) := by
  have quoted : HeadIn (fun character => !character.isPlain Octet.isBase64) (last :: rest) := by
    rintro _ ⟨⟩
    exact congrArg not (quote_apart_base64 last isQuote)
  rcases form with rfl | rfl
  · exact quoted
  · rw [Base64Url.padding]
    cases (4 - letters.length % 4) % 4 with
    | zero => exact quoted
    | succ count =>
      rintro _ ⟨⟩
      rfl

/-- The form with three letters is not there where two are the last. -/
theorem base64Two_refuses {front : Text} (two : front.length = 2)
    (every : ∀ character ∈ front, character.isPlain Octet.isBase64 = true)
    (ends : HeadIn (fun character => !character.isPlain Octet.isBase64) behind) :
    base64Two.split (front ++ behind) = none := by
  have row : (exactly 2 base64Char).split (front ++ behind) = some (front, behind) := by
    refine split_row_iff.mpr ⟨rfl, Nat.le_of_eq two.symm, every, ?_, .inl (by rw [two])⟩
    rintro _ ⟨⟩
    exact Nat.le_of_eq two
  have third : (octet (Octet.oneOf "AEIMQUYcgkosw048")).split behind = none := by
    refine split_eq_none_of_head rfl rfl fun character first => Bool.eq_false_iff.mpr fun spare => ?_
    have other : (!character.isPlain Octet.isBase64) = true := ends character first
    cases character with
    | plain octet => simp [UriChar.isPlain, (Base64Url.oneOf_two_iff.mp spare).1] at other
    | encoded high low => cases spare
  rw [base64Two, append_eq_seq, split_seq, append_eq_seq, split_seq, row]
  simp only [third, Option.map_none]

theorem mem_raw_of_octet {accepts : UInt8 → Bool} {octet : UInt8} (accepted : accepts octet = true) :
    [UriChar.plain octet] ∈ Abnf.raw accepts :=
  ⟨.plain octet, accepted, rfl⟩

theorem mem_base64One (canonical : Canonical [first, second])
    (form : signs = [] ∨ signs = Base64Url.padding [first, second]) :
    ([first, second] ++ signs).map .plain ∈ base64One.language := by
  obtain ⟨one, two, unused⟩ := Base64Url.canonical_two_iff.mp canonical
  have spare := Base64Url.oneOf_four_iff.mpr ⟨two, unused⟩
  have more : signs.map .plain ∈ (optional (word "==")).language := by
    refine Abnf.mem_optional.mpr (form.imp (congrArg (List.map UriChar.plain)) ?_)
    rintro rfl
    rw [language_word]
    rfl
  exact Language.append_mem_mul (Language.append_mem_mul (mem_raw_of_octet one) (mem_raw_of_octet spare)) more

theorem mem_base64Two (canonical : Canonical [first, second, third])
    (form : signs = [] ∨ signs = Base64Url.padding [first, second, third]) :
    ([first, second, third] ++ signs).map .plain ∈ base64Two.language := by
  obtain ⟨one, two, three, unused⟩ := Base64Url.canonical_three_iff.mp canonical
  have spare := Base64Url.oneOf_two_iff.mpr ⟨three, unused⟩
  have row : [UriChar.plain first, .plain second] ∈ (exactly 2 base64Char).language :=
    Abnf.mem_repeated_character.mpr ⟨Nat.le_refl _, by simp, by simp [UriChar.isPlain, one, two]⟩
  have more : signs.map .plain ∈ (optional (plain '=')).language := by
    refine Abnf.mem_optional.mpr (form.imp (congrArg (List.map UriChar.plain)) ?_)
    rintro rfl
    exact mem_raw_of_octet rfl
  exact Language.append_mem_mul (Language.append_mem_mul row (mem_raw_of_octet spare)) more

/-- The letters after the last four, with what they have of a padding, before a quote. -/
theorem split_last (canonical : Canonical letters) (few : letters.length < 4)
    (form : signs = [] ∨ signs = Base64Url.padding letters) (isQuote : last.isDelimiter '\'' = true) :
    (optional (base64Two <|> base64One)).split ((letters ++ signs).map .plain ++ last :: rest) =
      some ((letters ++ signs).map .plain, last :: rest) := by
  have here : HeadIn (UriChar.isDelimiter '\'') (last :: rest) := by
    rintro _ ⟨⟩
    exact isQuote
  rw [split_optional_iff rfl, orElse_eq_alt]
  match letters with
  | [] =>
    obtain rfl : signs = [] := form.elim id id
    refine .inr ⟨split_eq_none_of_head rfl rfl fun character next => ?_, rfl, rfl⟩
    obtain rfl := Option.some.inj next
    rw [leads, base64Two_leads, base64One_leads, quote_apart_base64 _ isQuote, Bool.or_false]
  | [lone] => exact absurd rfl canonical.whole
  | [first, second] =>
    refine .inl (split_alt_iff.mpr (.inr ⟨?_, base64One_takes _ (mem_base64One canonical form) _ here⟩))
    rw [List.map_append, List.append_assoc]
    exact base64Two_refuses rfl (List.forall_mem_map.mpr canonical.every) (headIn_of_signs form isQuote)
  | [first, second, third] =>
    exact .inl (split_alt_iff.mpr (.inl (base64Two_takes _ (mem_base64Two canonical form) _ here)))
  | _ :: _ :: _ :: _ :: _ => simp at few; omega

/-- Letters are taken four by four as long as there are so many. -/
theorem split_groups {groups : List Bytes}
    (every : ∀ group ∈ groups, group.length = 4 ∧ ∀ octet ∈ group, Octet.isBase64 octet = true)
    (few : letters.length < 4) (form : signs = [] ∨ signs = Base64Url.padding letters)
    (isQuote : last.isDelimiter '\'' = true) :
    (many (exactly 4 base64Char)).split (groups.flatten.map .plain ++ ((letters ++ signs).map .plain ++ last :: rest)) =
      some (groups.flatten.map .plain, (letters ++ signs).map .plain ++ last :: rest) := by
  have halts : (exactly 4 base64Char).split ((letters ++ signs).map .plain ++ last :: rest) = none := by
    rw [List.map_append, List.append_assoc]
    exact exactly_refuses (by rwa [List.length_map]) (headIn_of_signs form isQuote)
  have members : ∀ text ∈ groups.map (List.map UriChar.plain), text ∈ (exactly 4 base64Char).language := by
    refine List.forall_mem_map.mpr fun group member => ?_
    obtain ⟨four, letters⟩ := every group member
    refine Abnf.mem_repeated_character.mpr ⟨by rw [List.length_map, four], ?_, List.forall_mem_map.mpr letters⟩
    rintro _ ⟨⟩
    rw [List.length_map, four]
  rw [List.map_flatten]
  exact (split_times_iff rfl).mpr ⟨_, repeats_of_takes groups_takes rfl members halts, Nat.zero_le _, rfl⟩

/-- Between two quotes, all letters of some data are taken with what they have of a padding. -/
theorem split_binary {first : UriChar} (canonical : Canonical letters) (padded : OptionallyPadded letters content)
    (opens : first.isDelimiter '\'' = true) (closes : last.isDelimiter '\'' = true) :
    Pattern.binary.split (Text.ofWord "binary" ++ first :: (content.map .plain ++ last :: rest)) =
      some (Text.ofWord "binary" ++ first :: (content.map .plain ++ [last]), rest) := by
  obtain ⟨signs, form, rfl⟩ := Base64Url.padded_iff.mp padded
  obtain ⟨groups, tail, rfl, every, ends, few⟩ := Base64Url.exists_groups canonical
  have fours := Base64Url.length_flatten_groups fun group member => (every group member).1
  rw [Base64Url.padding_append fours] at form
  have letters : ((groups.flatten ++ tail) ++ signs).map UriChar.plain =
      groups.flatten.map .plain ++ (tail ++ signs).map .plain := by
    rw [List.append_assoc, List.map_append]
  have opened (more : Text) : (word "binary" ++ quote).split (Text.ofWord "binary" ++ first :: more) =
      some (Text.ofWord "binary" ++ [first], more) :=
    split_seq_iff.mpr ⟨_, _, [first], split_word_iff.mpr ⟨rfl, rfl⟩, if_pos opens, rfl⟩
  rw [letters, List.append_assoc]
  refine split_seq_iff.mpr ⟨_, _, [last], split_seq_iff.mpr ⟨_, _, _, split_seq_iff.mpr ⟨_, _, _, opened _,
    split_groups every few form closes, rfl⟩, split_last ends few form closes, rfl⟩, if_pos closes, ?_⟩
  simp

end Pattern

end Complete

/-- A keyword, a quote, what stands between the quotes, and a quote. -/
def Bytes.binaryLiteral (opening content closing : Bytes) : Bytes :=
  Text.bytes (Text.ofWord "binary") ++ opening ++ content ++ closing

namespace Grammar

variable {letters content opening closing source : Bytes} {offset : Nat} {token : Token}

/-- The letters of some data in a literal are characters of their own. -/
theorem exists_text_of_binaryLiteral (canonical : Canonical letters) (padded : OptionallyPadded letters content)
    (opens : Derives Abnf.singleQuote opening) (closes : Derives Abnf.singleQuote closing) :
    ∃ text : Text, text.Legible ∧ text.bytes = Bytes.binaryLiteral opening content closing ∧
      ∀ rest, Pattern.binary.split (text ++ rest) = some (text, rest) := by
  obtain ⟨first, isQuote, legible, rfl⟩ := Abnf.derives_mark_iff.mp opens
  obtain ⟨last, isQuoteToo, legibleToo, rfl⟩ := Abnf.derives_mark_iff.mp closes
  refine ⟨Text.ofWord "binary" ++ first :: (content.map .plain ++ [last]), ?_, ?_, fun rest => ?_⟩
  · have plain : Text.Legible (content.map .plain) := by
      refine Text.legible_plain fun percent => ?_
      rcases padded.mem canonical _ percent with isLetter | sign
      · cases isLetter
      · cases sign
    refine List.forall_mem_append.mpr ⟨by decide, List.forall_mem_cons.mpr ⟨legible, ?_⟩⟩
    exact List.forall_mem_append.mpr ⟨plain, by simpa using legibleToo⟩
  · have single : Text.bytes [last] = last.bytes := List.append_nil _
    simp only [Text.bytes_append, Text.bytes_cons, Text.bytes_plain, single, Bytes.binaryLiteral, List.append_assoc]
  · simpa using Pattern.split_binary canonical padded isQuote isQuoteToo

theorem binary_tokenAt? (canonical : Canonical letters) (padded : OptionallyPadded letters content)
    (opens : Derives Abnf.singleQuote opening) (closes : Derives Abnf.singleQuote closing)
    (stands : Bytes.binaryLiteral opening content closing <+: source.drop offset) :
    binary.tokenAt? source offset =
      some ⟨.literal, ⟨offset, offset + (Bytes.binaryLiteral opening content closing).length⟩, .typed .binary⟩ := by
  obtain ⟨text, legible, spelled, split⟩ := exists_text_of_binaryLiteral canonical padded opens closes
  obtain ⟨after, same⟩ := stands
  refine (Rule.tokenAt?_typed_iff rfl).mpr ⟨text, Text.ofBytes after, ?_, by rw [← spelled, Text.length_bytes]⟩
  rw [← same, ← spelled, Text.ofBytes_bytes_append legible, split]

theorem exists_of_binary_tokenAt? (found : binary.tokenAt? source offset = some token) :
    ∃ opening content closing letters, Derives Abnf.singleQuote opening ∧ Derives Abnf.singleQuote closing ∧
      Canonical letters ∧ OptionallyPadded letters content ∧
      Bytes.binaryLiteral opening content closing <+: source.drop offset ∧
      token = ⟨.literal, ⟨offset, offset + (Bytes.binaryLiteral opening content closing).length⟩, .typed .binary⟩ := by
  obtain ⟨text, rest, split, rfl⟩ := (Rule.tokenAt?_typed_iff rfl).mp found
  have derived := Pattern.derives_of_split rfl rfl split
  rw [Pattern.language_binary] at derived
  obtain ⟨_, closing, quoted, closes, spelled⟩ := Abnf.derives_mul_iff.mp derived
  obtain ⟨_, content, opened, value, rfl⟩ := Abnf.derives_mul_iff.mp quoted
  obtain ⟨_, opening, keyword, opens, rfl⟩ := Abnf.derives_mul_iff.mp opened
  obtain rfl := (Abnf.derives_word_iff (by decide)).mp keyword
  obtain ⟨letters, canonical, padded⟩ := padded_of_binaryValue value
  have literal : text.bytes = Bytes.binaryLiteral opening content closing := spelled
  obtain ⟨back, _, same⟩ := Text.exists_rest_of_append (Pattern.split_append split)
  refine ⟨opening, content, closing, letters, opens, closes, canonical, padded, ⟨back, ?_⟩, ?_⟩
  · rw [← literal, same]
  · rw [← literal, Text.length_bytes]

/-- Binary data is read wherever the encoding of some octets stands between two quotes, with all of its padding or none,
and where that is the whole source it is read as a whole. All that is ever read is of this form: without its padding,
what stands between the quotes is the encoding of one string of octets, and of no other. -/
theorem binary_canonical :
    (∀ data content opening closing, OptionallyPadded (Base64Url.encode data) content →
      Derives Abnf.singleQuote opening → Derives Abnf.singleQuote closing →
      let literal := Bytes.binaryLiteral opening content closing
      binary.complete literal = .ok ⟨.literal, ⟨0, literal.length⟩, .typed .binary⟩ ∧
        ∀ source offset, literal <+: source.drop offset →
          binary.tokenAt? source offset = some ⟨.literal, ⟨offset, offset + literal.length⟩, .typed .binary⟩) ∧
    ∀ source offset token, binary.tokenAt? source offset = some token →
      ∃ opening content closing, Derives Abnf.singleQuote opening ∧ Derives Abnf.singleQuote closing ∧
        Bytes.binaryLiteral opening content closing <+: source.drop offset ∧
        token = ⟨.literal, ⟨offset, offset + (Bytes.binaryLiteral opening content closing).length⟩, .typed .binary⟩ ∧
        (∃! data, Base64Url.encode data = Base64Url.stripped content) ∧
        Canonical (Base64Url.stripped content) ∧ OptionallyPadded (Base64Url.stripped content) content := by
  constructor
  · intro data content opening closing padded opens closes literal
    have canonical := Base64Url.canonical_encode data
    have whole : binary.tokenAt? literal 0 = some ⟨.literal, ⟨0, 0 + literal.length⟩, .typed .binary⟩ :=
      binary_tokenAt? canonical padded opens closes (List.prefix_refl literal)
    rw [Nat.zero_add] at whole
    refine ⟨?_, fun source offset => binary_tokenAt? canonical padded opens closes⟩
    rw [Rule.complete, whole]
    exact if_pos rfl
  · intro source offset token found
    obtain ⟨opening, content, closing, letters, opens, closes, canonical, padded, stands, rfl⟩ :=
      exists_of_binary_tokenAt? found
    obtain rfl := Base64Url.stripped_of_padded canonical padded
    exact ⟨opening, content, closing, opens, closes, stands, rfl, Base64Url.existsUnique_encode_iff.mpr canonical,
      canonical, padded⟩

/-- Of `binary'T0RhdGE=%27` all is read, although its quotes are written in two forms. -/
theorem binary_canonical_mixed_quotes :
    OptionallyPadded (Base64Url.encode [0x4F, 0x44, 0x61, 0x74, 0x61])
      [0x54, 0x30, 0x52, 0x68, 0x64, 0x47, 0x45, 0x3D] ∧
    Derives Abnf.singleQuote [0x27] ∧ Derives Abnf.singleQuote [0x25, 0x32, 0x37] ∧
    let literal := Bytes.binaryLiteral [0x27] [0x54, 0x30, 0x52, 0x68, 0x64, 0x47, 0x45, 0x3D] [0x25, 0x32, 0x37]
    binary.complete literal = .ok ⟨.literal, ⟨0, 18⟩, .typed .binary⟩ ∧
      ∃ opening content closing, Bytes.binaryLiteral opening content closing <+: literal ∧
        ∃! data, Base64Url.encode data = Base64Url.stripped content := by
  have padded : OptionallyPadded (Base64Url.encode [0x4F, 0x44, 0x61, 0x74, 0x61])
      [0x54, 0x30, 0x52, 0x68, 0x64, 0x47, 0x45, 0x3D] := .inr (by decide +kernel)
  have opens : Derives Abnf.singleQuote [0x27] := Abnf.derives_mark_iff.mpr ⟨.plain 0x27, rfl, by decide, rfl⟩
  have closes : Derives Abnf.singleQuote [0x25, 0x32, 0x37] :=
    Abnf.derives_mark_iff.mpr ⟨.encoded 0x32 0x37, rfl, by decide, rfl⟩
  refine ⟨padded, opens, closes, ?_⟩
  obtain ⟨complete, reads⟩ := binary_canonical.1 _ _ _ _ padded opens closes
  obtain ⟨opening, content, closing, _, _, stands, _, unique, _⟩ :=
    binary_canonical.2 _ 0 _ (reads _ 0 (List.prefix_refl _))
  exact ⟨complete, opening, content, closing, stands, unique⟩

end Grammar

end ODataLiteral
