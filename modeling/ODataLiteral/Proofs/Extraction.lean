import ODataLiteral.Proofs.Json.Completeness
import ODataLiteral.Proofs.Json.Soundness
import ODataLiteral.Proofs.Rule.Extraction

/-! What the rules take out of a source as text. Names are ASCII, so they can be taken out of any source; the text of a
JSON string can be taken out exactly where the octets between its quotation marks are UTF-8. What is taken out is what
stands in the source. -/
namespace ODataLiteral

open Abnf (Derives)
open Utf8 (encode)

/-- What a token keeps as text is written in its octets, between the marks that belong to its form. -/
def Token.Faithful (source : Bytes) (token : Token) : Prop :=
  match token.value with
  | .identifier name =>
    token.octets source = encode name ∧ ¬ Token.StartsWithAt (token.octets source) ∨
      ∃ sign, Derives (Abnf.mark '@') sign ∧ token.octets source = sign ++ encode name
  | .enumeration name _ =>
    ∃ quote members, Derives (Abnf.mark '\'') quote ∧ token.octets source = encode name ++ quote ++ members
  | .json (.string text) =>
    ∃ opening closing, Derives Abnf.quotationMark opening ∧ Derives Abnf.quotationMark closing ∧
      token.octets source = opening ++ encode text ++ closing
  | _ => True

/-- The patterns of the texts that are kept. -/
def Meaning.Keeps (meaning : Meaning) (pattern : Pattern) : Prop :=
  match meaning with
  | name => pattern = Pattern.identifier
  | term => pattern = Pattern.annotationTerm
  | jsonString => pattern = Pattern.jsonString
  | _ => True

/-- A rule whose lexemes keep texts of those patterns only. A type takes the place of all that is kept. -/
def Rule.Keeps : Rule → Prop
  | lexeme _ meaning pattern => meaning.Keeps pattern
  | enclosed _ _ inner _ => inner.Keeps
  | pair _ _ first _ second => first.Keeps ∧ second.Keeps
  | list _ _ item _ _ _ => item.Keeps
  | enumeration typeName opening member _ _ =>
    typeName = Pattern.qualifiedName ∧ opening = Pattern.quote ∧ member.Keeps
  | withKind _ rule => rule.Keeps
  | orElse first second => first.Keeps ∧ second.Keeps
  | withType _ _ | never | .construct _ => True

section Text

variable {source : Bytes} {levels : Nat} {start stop : Place} {text : Text}

theorem Pattern.derives_of_parse {pattern : Pattern} (steady : pattern.steady = true)
    (clean : pattern.clean = true) (inside : start.In source)
    (read : pattern.parse start = some (text, stop)) : Derives pattern.language text.bytes :=
  ⟨text, mem_language_of_split steady (Pattern.parse_iff.mp read).1,
    Pattern.legible_of_parse steady clean inside read, rfl⟩

theorem encode_of_decode? {octets : Bytes} {name : String} (decoded : Utf8.decode? octets = some name) :
    encode name = octets :=
  Utf8.decode?_eq_some_iff.mp decoded

theorem exists_name {octets : Bytes} (low : ∀ octet ∈ octets, octet < 0x80) :
    ∃ name, Utf8.decode? octets = some name :=
  Option.isSome_iff_exists.mp (Utf8.decode?_isSome_iff.mpr (Utf8.valid_of_ascii low))

/-- A term is an at sign and a name. -/
theorem annotationTerm_parts (inside : start.In source)
    (read : Pattern.annotationTerm.parse start = some (text, stop)) :
    ∃ sign : Text, Derives (Abnf.mark '@') sign.bytes ∧ text = sign ++ text.tail ∧
      ∀ octet ∈ Text.bytes text.tail, octet < 0x80 := by
  obtain ⟨taken, _⟩ := Pattern.parse_iff.mp read
  obtain ⟨_, _, name, signed, named, rfl⟩ := Pattern.split_seq_iff.mp taken
  obtain ⟨sign, isAt, rfl, _⟩ := Pattern.split_char_iff.mp signed
  have legible := Pattern.legible_of_parse (by decide) (by decide) inside read
  refine ⟨[sign], ⟨[sign], Abnf.mem_mark.mpr ⟨sign, isAt, rfl⟩, ?_, rfl⟩, rfl, ?_⟩
  · exact fun character member => legible character (List.mem_append_left _ member)
  · exact Pattern.low_of_split (by decide) Grammar.qualifiedName_spells_low named

/-- A string is what stands between two quotation marks. -/
theorem jsonString_parts (inside : start.In source)
    (read : Pattern.jsonString.parse start = some (text, stop)) :
    ∃ opening closing : Text, Derives Abnf.quotationMark opening.bytes ∧
      Derives Abnf.quotationMark closing.bytes ∧ text = opening ++ text.tail.dropLast ++ closing := by
  obtain ⟨taken, _⟩ := Pattern.parse_iff.mp read
  obtain ⟨_, _, _, body, closed, rfl⟩ := Pattern.split_seq_iff.mp taken
  obtain ⟨_, _, between, opened, _, rfl⟩ := Pattern.split_seq_iff.mp body
  obtain ⟨first, isFirst, rfl, _⟩ := Pattern.split_char_iff.mp opened
  obtain ⟨last, isLast, rfl, _⟩ := Pattern.split_char_iff.mp closed
  have legible := Pattern.legible_of_parse (by decide) (by decide) inside read
  have mark {character : UriChar} (isMark : character.isDelimiter '"' = true)
      (member : character ∈ [first] ++ between ++ [last]) :
      Derives Abnf.quotationMark (Text.bytes [character]) :=
    ⟨[character], Abnf.mem_mark.mpr ⟨character, isMark, rfl⟩,
      List.forall_mem_singleton.mpr (legible character member), rfl⟩
  exact ⟨[first], [last], mark isFirst (by simp), mark isLast (by simp), by simp⟩

end Text

namespace Rule

variable {source : Bytes} {levels : Nat} {rule : Rule} {start stop : Place} {token : Token}

theorem lexeme_faithful {kind : Kind} {meaning : Meaning} {pattern : Pattern} (keeps : meaning.Keeps pattern)
    (inside : start.In source) (read : (lexeme kind meaning pattern).parse levels start = some (token, stop)) :
    token.Faithful source := by
  obtain ⟨text, value, taken, known, rfl⟩ := Parser.lexeme_iff.mp read
  have octets := inside.slice (Pattern.parse_advances taken)
  cases meaning with
  | name =>
    obtain rfl : pattern = Pattern.identifier := keeps
    obtain ⟨name, decoded, rfl⟩ := Option.map_eq_some_iff.mp known
    have derived := Pattern.derives_of_parse (by decide) (by decide) inside taken
    rw [Pattern.language_identifier, ← octets] at derived
    exact .inl ⟨octets.trans (encode_of_decode? decoded).symm, Grammar.not_startsWithAt_of_identifier derived⟩
  | term =>
    obtain rfl : pattern = Pattern.annotationTerm := keeps
    obtain ⟨name, decoded, rfl⟩ := Option.map_eq_some_iff.mp known
    obtain ⟨sign, isSign, parts, _⟩ := annotationTerm_parts inside taken
    refine .inr ⟨sign.bytes, isSign, octets.trans ?_⟩
    rw [encode_of_decode? decoded, ← Text.bytes_append, ← parts]
  | jsonString =>
    obtain rfl : pattern = Pattern.jsonString := keeps
    obtain ⟨string, decoded, rfl⟩ := Option.map_eq_some_iff.mp known
    obtain ⟨opening, closing, opens, closes, parts⟩ := jsonString_parts inside taken
    refine ⟨opening.bytes, closing.bytes, opens, closes, octets.trans ?_⟩
    rw [encode_of_decode? decoded, ← Text.bytes_append, ← Text.bytes_append, ← parts]
  | integer type range =>
    simp only [Meaning.value?] at known
    split at known <;> cases known
    trivial
  | null | typed _ | srid | jsonNumber | jsonBoolean _ | jsonNull =>
    cases known
    trivial

theorem enumeration_faithful {member : Rule} {separator closing : Pattern} (inside : start.In source)
    (read : (enumeration Pattern.qualifiedName Pattern.quote member separator closing).parse levels start =
      some (token, stop)) : token.Faithful source := by
  obtain ⟨text, after, gap, first, members, name, named, opened, run, decoded, rfl⟩ :=
    Parser.enumeration_iff.mp read
  have onName := Pattern.parse_advances named
  have onQuote := Pattern.parse_advances opened
  obtain ⟨rest, onMembers⟩ := (Parser.items_of_itemsWithin run).advances (parse_forward levels member)
  have octets := inside.slice ((onName.trans onQuote).trans onMembers)
  have quote := Pattern.derives_of_parse (by decide) (by decide) (inside.advances onName) opened
  refine ⟨gap.bytes, rest.bytes, Pattern.language_delimiter _ ▸ quote, octets.trans ?_⟩
  rw [encode_of_decode? decoded, Text.bytes_append, Text.bytes_append]

theorem faithful_of_parse (keeps : rule.Keeps) (inside : start.In source)
    (read : rule.parse levels start = some (token, stop)) : token.Faithful source := by
  induction rule generalizing token with
  | lexeme kind meaning pattern => exact lexeme_faithful keeps inside read
  | enclosed kind opening inner closing _ =>
    obtain ⟨_, _, _, _, _, _, _, _, rfl⟩ := Parser.enclosed_iff.mp read
    trivial
  | pair pairing opening first between second _ _ =>
    obtain ⟨_, _, _, _, _, _, _, _, _, _, _, rfl⟩ := Parser.pair_iff.mp read
    cases pairing <;> trivial
  | list kind opening item separator closing mayBeEmpty _ =>
    obtain ⟨_, _, _, _, rfl, _⟩ := Parser.list_iff.mp read
    trivial
  | enumeration typeName opening member separator closing _ =>
    obtain ⟨rfl, rfl, _⟩ := keeps
    exact enumeration_faithful inside read
  | withType type rule _ =>
    obtain ⟨_, _, rfl⟩ := parse_withType_iff.mp read
    trivial
  | withKind kind rule ih =>
    obtain ⟨child, found, rfl⟩ := parse_withKind_iff.mp read
    have kept : child.Faithful source := ih keeps found
    exact kept
  | orElse first second ihFirst ihSecond =>
    rcases Option.or_eq_some_iff.mp read with read | ⟨_, read⟩
    · exact ihFirst keeps.1 read
    · exact ihSecond keeps.2 read
  | never => cases read
  | construct named =>
    obtain ⟨_, _, _, _, _, _, _, _, _, read⟩ := Construct.list_of_parse read
    obtain ⟨_, _, _, _, rfl, _⟩ := Parser.list_iff.mp read
    trivial

end Rule

namespace Grammar

theorem enumeration_keeps : enumeration.Keeps :=
  ⟨rfl, rfl, rfl, trivial⟩

theorem shape_keeps (kind : Shape) : (shape kind).Keeps := by
  cases kind with
  | collection => trivial
  | lineString | multiLineString | multiPoint | multiPolygon | point | polygon => exact ⟨trivial, trivial⟩

theorem geoLiteral_keeps : geoLiteral.Keeps :=
  ⟨shape_keeps .collection, shape_keeps .lineString, shape_keeps .multiPoint, shape_keeps .multiLineString,
    shape_keeps .multiPolygon, shape_keeps .point, shape_keeps .polygon, trivial⟩

theorem jsonPrimitive_keeps : jsonPrimitive.Keeps :=
  ⟨rfl, trivial, ⟨trivial, trivial⟩, trivial, trivial⟩

theorem jsonValue_keeps : jsonValue.Keeps :=
  ⟨trivial, trivial, jsonPrimitive_keeps, jsonPrimitive_keeps, trivial⟩

end Grammar

theorem Construct.body_keeps (construct : Construct) : construct.body.Keeps := by
  cases construct with
  | object => exact ⟨⟨rfl, Grammar.jsonValue_keeps⟩, rfl, Grammar.jsonValue_keeps⟩
  | collection => exact Grammar.geoLiteral_keeps

theorem Rule.hereditary_keeps : Hereditary Rule.Keeps Rule.Keeps where
  enclosed := id
  pair := id
  list := id
  enumeration := fun keeps => keeps.2.2
  withKind := id
  orElse := id
  body := Construct.body_keeps

theorem Rule.shows_faithful {source : Bytes} {levels : Nat} {rule : Rule} (keeps : rule.Keeps) :
    (rule.parse levels).Shows source (Token.Everywhere (Token.Faithful source)) :=
  everywhere_of_parts (fun _ => hereditary_keeps.parts)
    (fun _ _ keeps _ _ _ inside read => faithful_of_parse keeps inside read) keeps

namespace Grammar

theorem primitiveTable_keeps : ∀ alternative ∈ primitiveTable, alternative.rule.Keeps := by
  simp only [primitiveTable, List.forall_mem_append, List.forall_mem_cons, List.forall_mem_map]
  exact ⟨⟨⟨trivial, trivial, trivial, trivial, trivial, trivial, trivial, trivial, trivial, trivial, trivial, trivial,
    trivial, trivial, trivial, trivial, trivial, enumeration_keeps, List.forall_mem_nil _⟩,
    fun _ _ => trivial⟩, fun _ _ => trivial⟩

theorem primitiveCatalogue_keeps : ∀ rule ∈ primitiveCatalogue, rule.Keeps :=
  forall_primitiveCatalogue Rule.Keeps rfl primitiveTable_keeps
    (Table.rule_of_forall Rule.Keeps trivial And.intro primitiveTable_keeps)

theorem geoCatalogue_keeps : ∀ rule ∈ geoCatalogue, rule.Keeps := by
  have shapes (kind : Shape) : ∀ rule ∈ shapeCatalogue kind, rule.Keeps := by
    simp only [shapeCatalogue, List.forall_mem_cons]
    exact ⟨shape_keeps kind, ⟨trivial, shape_keeps kind⟩, trivial, trivial, List.forall_mem_nil _⟩
  have position : position.Keeps := ⟨trivial, trivial⟩
  simp only [geoCatalogue, List.forall_mem_append, List.forall_mem_cons, List.forall_mem_flatMap]
  exact ⟨⟨position, position, position, position, position, trivial, geoLiteral_keeps, List.forall_mem_nil _⟩,
    fun kind _ => shapes kind⟩

theorem jsonCatalogue_keeps : ∀ rule ∈ jsonCatalogue, rule.Keeps := by
  have primitive := jsonPrimitive_keeps
  simp only [jsonCatalogue, List.forall_mem_cons]
  exact ⟨rfl, trivial, ⟨trivial, trivial⟩, trivial, primitive, rfl, ⟨rfl, jsonValue_keeps⟩, ⟨rfl, jsonValue_keeps⟩,
    trivial, trivial, primitive, jsonValue_keeps, ⟨trivial, trivial, primitive, trivial⟩, List.forall_mem_nil _⟩

theorem catalogue_keeps : ∀ rule ∈ catalogue, rule.Keeps := by
  simp only [catalogue, List.forall_mem_append]
  exact ⟨⟨primitiveCatalogue_keeps, geoCatalogue_keeps⟩, jsonCatalogue_keeps⟩

section Names

variable {source : Bytes} {offset : Nat} {text : Text} {stop : Place}

theorem identifier_low
    (parsed : Pattern.identifier.parse (Place.ofSource source offset) = some (text, stop)) :
    ∀ octet ∈ text.bytes, octet < 0x80 :=
  Pattern.low_of_split (by decide) identifier_spells_low (Pattern.parse_iff.mp parsed).1

theorem identifier_extracts (source : Bytes) (offset : Nat) : identifier.Extracts source offset := by
  refine Rule.extracts_lexeme (by decide) (by decide) identifier_fits fun text stop parsed _ => ?_
  obtain ⟨name, decoded⟩ := exists_name (identifier_low parsed)
  simp [Meaning.value?, decoded]

theorem annotationTerm_extracts (source : Bytes) (offset : Nat) : annotationTerm.Extracts source offset := by
  refine Rule.extracts_lexeme (by decide) (by decide) annotationTerm_fits fun text stop parsed _ => ?_
  obtain ⟨_, _, _, low⟩ := annotationTerm_parts (.ofSource source offset) parsed
  obtain ⟨name, decoded⟩ := exists_name low
  simp [Meaning.value?, decoded]

theorem enumeration_extracts (source : Bytes) (offset : Nat) : enumeration.Extracts source offset := by
  refine ⟨fun text after => Pattern.extracts (by decide) (by decide) fun text stop parsed => ?_,
    identifier_extracts source offset, nofun⟩
  exact Utf8.valid_of_ascii
    (Pattern.low_of_split (by decide) qualifiedName_spells_low (Pattern.parse_iff.mp parsed).1)

end Names

/-- What is taken out of any source at an offset, whether or not the source is a text. -/
structure TextsAt (source : Bytes) (offset depth : Nat) : Prop where
  extracts : ∀ rule ∈ [identifier, annotationTerm, enumeration], rule.Extracts source offset
  /-- An identifier is there as soon as its pattern matches. -/
  identifier : ∀ ending, Pattern.identifier.endAt source offset = some ending → ∃ name,
    source.slice offset ending = encode name ∧ (∀ octet ∈ encode name, octet < 0x80) ∧
      Grammar.identifier.attempt source offset depth =
        (.done { kind := .identifier, span := ⟨offset, ending⟩, value := .identifier name }, depth)
  /-- And so is a term, without its at sign. -/
  annotationTerm : ∀ ending, Pattern.annotationTerm.endAt source offset = some ending → ∃ sign name,
    Derives (Abnf.mark '@') sign ∧ source.slice offset ending = sign ++ encode name ∧
      (∀ octet ∈ encode name, octet < 0x80) ∧
      Grammar.annotationTerm.attempt source offset depth =
        (.done { kind := .annotationTerm, span := ⟨offset, ending⟩, value := .identifier name }, depth)
  typeName : ∀ ending, Pattern.qualifiedName.endAt source offset = some ending →
    ∀ octet ∈ source.slice offset ending, octet < 0x80
  /-- A string is there as soon as its pattern matches, unless what stands between its marks is no text. -/
  jsonString : ∀ ending, Pattern.jsonString.endAt source offset = some ending → ∃ opening between closing,
    Derives Abnf.quotationMark opening ∧ Derives Abnf.quotationMark closing ∧
      source.slice offset ending = opening ++ between ++ closing ∧
      ((Grammar.jsonString.attempt source offset depth).1 = .noMatch ↔ ¬ Utf8.Valid between) ∧
      ∀ text, encode text = between → Grammar.jsonString.attempt source offset depth =
        (.done { kind := .literal, span := ⟨offset, ending⟩, value := .json (.string text) }, depth)

theorem textsAt (source : Bytes) (offset depth : Nat) : TextsAt source offset depth where
  extracts := by
    simp only [List.forall_mem_cons]
    exact ⟨identifier_extracts source offset, annotationTerm_extracts source offset,
      enumeration_extracts source offset, List.forall_mem_nil _⟩
  identifier := by
    intro ending ends
    obtain ⟨text, stop, parsed, rfl, octets⟩ := Pattern.parse_of_endAt (by decide) ends
    have run : Grammar.identifier.attempt source offset depth = _ :=
      Rule.attempt_lexeme (by decide) (by decide) identifier_fits parsed depth
    have low := identifier_low parsed
    obtain ⟨name, decoded⟩ := exists_name low
    have written := encode_of_decode? decoded
    refine ⟨name, octets.trans written.symm, written ▸ low, ?_⟩
    rw [run, Meaning.value?, decoded]
    rfl
  annotationTerm := by
    intro ending ends
    obtain ⟨text, stop, parsed, rfl, octets⟩ := Pattern.parse_of_endAt (by decide) ends
    have run : Grammar.annotationTerm.attempt source offset depth = _ :=
      Rule.attempt_lexeme (by decide) (by decide) annotationTerm_fits parsed depth
    obtain ⟨sign, isSign, parts, low⟩ := annotationTerm_parts (.ofSource source offset) parsed
    obtain ⟨name, decoded⟩ := exists_name low
    have written := encode_of_decode? decoded
    refine ⟨sign.bytes, name, isSign, ?_, written ▸ low, ?_⟩
    · rw [octets, written, ← Text.bytes_append, ← parts]
    · rw [run, Meaning.value?, decoded]
      rfl
  typeName := by
    intro ending ends
    obtain ⟨text, stop, parsed, _, octets⟩ := Pattern.parse_of_endAt (by decide) ends
    rw [octets]
    exact Pattern.low_of_split (by decide) qualifiedName_spells_low (Pattern.parse_iff.mp parsed).1
  jsonString := by
    intro ending ends
    obtain ⟨text, stop, parsed, rfl, octets⟩ := Pattern.parse_of_endAt (by decide) ends
    have run : Grammar.jsonString.attempt source offset depth = _ :=
      Rule.attempt_lexeme (by decide) (by decide) Meaning.jsonString_fits parsed depth
    obtain ⟨opening, closing, opens, closes, parts⟩ := jsonString_parts (.ofSource source offset) parsed
    refine ⟨opening.bytes, Text.bytes text.tail.dropLast, closing.bytes, opens, closes, ?_, ?_, ?_⟩
    · rw [octets, ← Text.bytes_append, ← Text.bytes_append, ← parts]
    · rw [run, Meaning.value?, ← Utf8.decode?_isSome_iff]
      cases Utf8.decode? (Text.bytes text.tail.dropLast) <;> simp [Ending.ofOption]
    · intro string written
      have decoded := Utf8.decode?_eq_some_iff.mpr written
      rw [run, Meaning.value?, decoded]
      rfl

/-- Names are taken out of every source, and JSON strings out of those where they are texts. In a source that is a text
itself nothing is refused, and every token stands between two boundaries. What is taken out is what stands there. -/
theorem texts_extracted (source : Bytes) :
    (∀ offset depth, TextsAt source offset depth) ∧
      (Utf8.Valid source → ∀ offset,
        (∀ rule ∈ catalogue, rule.Extracts source offset) ∧
        ∀ construct : Construct, construct.body.Extracts source offset) ∧
      ∀ rule ∈ catalogue, ∀ offset depth token, (rule.attempt source offset depth).1.value? = some token →
        (∀ inner : Token, inner.Inside token → inner.Faithful source) ∧
        (Utf8.Valid source → Utf8.Boundary source offset ∧
          ∀ inner : Token, inner.Inside token → inner.Bounded source) := by
  refine ⟨textsAt source, fun valid offset => ⟨fun rule member => ?_, fun construct => ?_⟩, ?_⟩
  · exact Rule.extracts_of_fenced (catalogue_steady rule member) (catalogue_fits rule member)
      (catalogue_fenced rule member) valid offset
  · exact Rule.extracts_of_fenced construct.steady_body construct.body_fits construct.body_fenced valid offset
  · intro rule member offset depth token found
    have steady := catalogue_steady rule member
    rw [Rule.value?_attempt steady (catalogue_fits rule member)] at found
    obtain ⟨⟨_, stop⟩, read, rfl⟩ := Option.map_eq_some_iff.mp found
    have inside := Place.In.ofSource source offset
    have faithful := Rule.shows_faithful (catalogue_keeps rule member) _ _ _ inside read
    refine ⟨faithful, fun valid => ?_⟩
    have bounded := Rule.shows_bounded valid _ steady (catalogue_fenced rule member) _ _ _ inside read
    have starts : Utf8.Boundary source _ := (bounded _ .self).1
    rw [Rule.parse_spans _ rule _ _ _ read] at starts
    exact ⟨starts, bounded⟩

/-- The array `["é"]`, in which the second octet of the letter stands at offset 3. -/
theorem texts_extracted_array :
    let source : Bytes := [0x5B, 0x22, 0xC3, 0xA9, 0x22, 0x5D]
    Utf8.Valid source ∧ (∃ token, (primitiveArray.attempt source 0 0).1.value? = some token ∧
        ∀ inner : Token, inner.Inside token → inner.Bounded source) ∧
      ∀ rule ∈ catalogue, (rule.attempt source 3 0).1.value? = none := by
  intro source
  have valid : Utf8.Valid source := Utf8.decode?_isSome_iff.mp (by decide)
  have member : primitiveArray ∈ catalogue := by simp [catalogue, jsonCatalogue]
  have found : (primitiveArray.attempt source 0 0).1.value?.isSome = true := by rfl
  obtain ⟨token, found⟩ := Option.isSome_iff_exists.mp found
  refine ⟨valid, ⟨token, found, ?_⟩, fun rule member => ?_⟩
  · exact (((texts_extracted source).2.2 primitiveArray member 0 0 token found).2 valid).2
  · by_contra some
    obtain ⟨token, found⟩ := Option.ne_none_iff_exists'.mp some
    have boundary := (((texts_extracted source).2.2 rule member 3 0 token found).2 valid).1
    have behind := Utf8.decode?_isSome_iff.mpr boundary.valid_drop
    exact absurd behind (by decide)

end Grammar

end ODataLiteral
