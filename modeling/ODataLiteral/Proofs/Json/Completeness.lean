import Mathlib.Data.List.DropRight
import ODataLiteral.Proofs.Json.Alternatives
import ODataLiteral.Proofs.Json.Space
import ODataLiteral.Proofs.Json.Soundness
import ODataLiteral.Proofs.Rule.Exact

/-! The rules of JSON read every text of their grammar, with at least as many levels as the text has objects inside
one another. A structure may be followed by anything, a primitive value only by what may follow an item.
So structures are read exactly where the grammar derives the octets, and their tokens show all that stands in them. -/
namespace ODataLiteral.Grammar

open Pattern

/-- What a pair of brackets must have in order to stand around items. -/
structure Brackets (opens closes : Char) : Prop where
  opening : UriChar.Apart (UriChar.isDelimiter opens) UriChar.isWhitespace
  closing : UriChar.Apart (UriChar.isDelimiter closes) UriChar.isWhitespace
  noComma : ','.toUInt8 ≠ closes.toUInt8
  ends (character : UriChar) : character.isDelimiter closes = true → character.isItemEnd = true

theorem braces : Brackets '{' '}' where
  opening := delimiter_apart_whitespace (by decide) (by decide)
  closing := delimiter_apart_whitespace (by decide) (by decide)
  noComma := by decide
  ends character accepted := by simp [UriChar.isItemEnd, accepted]

theorem squares : Brackets '[' ']' where
  opening := delimiter_apart_whitespace (by decide) (by decide)
  closing := delimiter_apart_whitespace (by decide) (by decide)
  noComma := by decide
  ends character accepted := by simp [UriChar.isItemEnd, accepted]

section List

variable {levels : Nat} {grammar : Language UriChar} {heads : UriChar → Bool} {item : Rule}
  {opens closes : Char}

theorem closingBracket_refused (other : ','.toUInt8 ≠ closes.toUInt8) {gap : Text}
    (separator : gap ∈ Abnf.valueSeparator) (rest : Text) :
    (closingBracket closes).split (gap ++ rest) = none := by
  obtain ⟨space, comma, after, isSpace, isComma, _, rfl⟩ := mem_opening.mp separator
  have visible := delimiter_apart_whitespace (by decide) (by decide) comma isComma
  cases read : (closingBracket closes).split (space ++ comma :: after ++ rest) with
  | none => rfl
  | some found =>
    obtain ⟨character, closing, same, _⟩ := split_closingBracket_iff.mp read
    rw [List.append_assoc, List.cons_append, List.dropWhile_append_of_pos (isWhitespace_of_mem_bws isSpace),
      List.dropWhile_cons_of_neg (by simp [visible])] at same
    rw [← (List.cons.inj same).1, UriChar.delimiters_apart other comma isComma] at closing
    cases closing

theorem framed_items (visible : Abnf.Visible heads grammar) (brackets : Brackets opens closes) :
    Parser.Framed grammar Abnf.valueSeparator (Abnf.closing closes) UriChar.isItemEnd valueSeparator
      (closingBracket closes) where
  closes := by
    rintro last closed tail
    refine ⟨?_, split_closingBracket_of_mem brackets.closing closed tail⟩
    obtain ⟨space, bracket, isSpace, isBracket, rfl⟩ := mem_closing.mp closed
    rw [List.append_assoc]
    exact headIn_of_spaced isSpace (brackets.ends bracket isBracket) tail
  goesOn := by
    rintro gap separator rest
    refine ⟨?_, closingBracket_refused brackets.noComma separator rest⟩
    obtain ⟨space, comma, blank, isSpace, isComma, _, rfl⟩ := mem_opening.mp separator
    rw [List.append_assoc]
    exact headIn_of_spaced isSpace (by simp [UriChar.isItemEnd, isComma]) _
  separates := by
    rintro gap separator next member rest
    obtain ⟨taken, between⟩ := split_openingBracket_of_mem
      (delimiter_apart_whitespace (by decide) (by decide)) separator (next ++ rest)
    -- The separator takes the whitespace that the grammar may give to the next item, and the rest of the item is
    -- still in the grammar.
    obtain ⟨head, more, skipped, _, memberNext⟩ := visible.dropWhile_append member rest
    exact ⟨taken, head :: more, skipped ▸ between, memberNext⟩

theorem list_complete (complete : (item.parse levels).Complete grammar UriChar.isItemEnd)
    (visible : Abnf.Visible heads grammar) (brackets : Brackets opens closes)
    (apart : UriChar.Apart heads (UriChar.isDelimiter closes)) (kind : Kind) :
    ((Rule.list kind (openingBracket opens) item valueSeparator (closingBracket closes) true).parse
      levels).Complete (Abnf.delimited opens grammar closes) anything := by
  rintro start _ tail here ⟨_, ⟨first, opened, middle, inner, rfl⟩, last, closed, rfl⟩ _
  obtain ⟨taken, before⟩ := split_openingBracket_of_mem brackets.opening opened (middle ++ (last ++ tail))
  rw [← List.append_assoc, ← List.append_assoc, ← here] at before
  obtain ⟨inside, begins, rest⟩ := Pattern.parse_of_split before
  rcases Abnf.mem_optional.mp inner with rfl | filled
  · -- In an empty list the opening delimiter takes the whitespace before the closing one.
    obtain ⟨space, bracket, isSpace, isBracket, rfl⟩ := mem_closing.mp closed
    rw [List.nil_append, List.append_assoc, List.dropWhile_append_of_pos (isWhitespace_of_mem_bws isSpace),
      List.singleton_append, List.dropWhile_cons_of_neg (by simp [brackets.closing bracket isBracket])] at rest
    have bare : [bracket] ∈ Abnf.closing closes := mem_closing.mpr ⟨[], bracket, nil_mem_bws, isBracket, rfl⟩
    have final := split_closingBracket_of_mem brackets.closing bare tail
    rw [List.singleton_append, ← rest] at final
    obtain ⟨stop, closing, final⟩ := Pattern.parse_of_split final
    exact ⟨_, stop, Parser.list_iff.mpr ⟨_, inside, [], begins, rfl, .inl ⟨rfl, rfl, _, closing⟩⟩, final⟩
  · obtain ⟨one, parts, member, every, rfl⟩ := Abnf.mem_items.mp filled
    obtain ⟨head, more, skipped, accepted, memberToo⟩ :=
      visible.dropWhile_append member (parts.flatten ++ (last ++ tail))
    rw [List.append_assoc, skipped] at rest
    have goesOn : (closingBracket closes).split inside.rest = none := by
      cases read : (closingBracket closes).split inside.rest with
      | none => rfl
      | some found =>
        obtain ⟨character, closing, same, _⟩ := split_closingBracket_iff.mp read
        rw [rest, ← skipped, List.dropWhile_idempotent, skipped] at same
        rw [← (List.cons.inj same).1, apart head accepted] at closing
        cases closing
    obtain ⟨tokens, stop, run, final⟩ :=
      Parser.items_complete complete (framed_items visible brackets) closed memberToo every rest
    have read := (Parser.items_iff (Rule.parse_forward levels item) rfl rfl).mpr run
    exact ⟨_, stop, Parser.list_iff.mpr ⟨_, inside, tokens, begins, rfl,
      .inr ⟨fun _ => Pattern.parse_eq_none.mpr goesOn, read⟩⟩, final⟩

end List

section Member

variable {levels : Nat} {keys values : Language UriChar} {heads : UriChar → Bool}

theorem member_complete {key value : Rule}
    (keyComplete : (key.parse levels).Complete keys (UriChar.isDelimiter '"'))
    (valueComplete : (value.parse levels).Complete values UriChar.isItemEnd)
    (visible : Abnf.Visible heads values) :
    ((member key value).parse levels).Complete (Abnf.pair keys values) UriChar.isItemEnd := by
  rintro start _ tail here ⟨_, ⟨_, ⟨first, opened, name, isName, rfl⟩, _,
    ⟨last, closed, gap, separates, rfl⟩, rfl⟩, content, isContent, rfl⟩ follows
  have quote {text : Text} (quoted : text ∈ Abnf.quotationMark) (rest : Text) :
      doubleQuote.split (text ++ rest) = some (text, rest) := by
    have sure : doubleQuote.Deterministic anything := trivial
    rw [← language_doubleQuote] at quoted
    exact split_of_mem rfl sure quoted fun _ _ => rfl
  have here : start.rest = first ++ (name ++ (last ++ (gap ++ (content ++ tail)))) := by
    rw [here]
    simp
  have before := quote opened (name ++ (last ++ (gap ++ (content ++ tail))))
  rw [← here] at before
  obtain ⟨left, opening, rest⟩ := Pattern.parse_of_split before
  have quoted : HeadIn (UriChar.isDelimiter '"') (last ++ (gap ++ (content ++ tail))) := by
    obtain ⟨character, accepted, rfl⟩ := Abnf.mem_mark.mp closed
    rintro _ ⟨⟩
    exact accepted
  obtain ⟨one, middle, readKey, rest⟩ := keyComplete left name _ rest isName quoted
  have ending := quote closed (gap ++ (content ++ tail))
  obtain ⟨taken, colon⟩ := split_openingBracket_of_mem
    (delimiter_apart_whitespace (by decide) (by decide)) separates (content ++ tail)
  obtain ⟨head, more, skipped, _, isContent⟩ := visible.dropWhile_append isContent tail
  rw [skipped] at colon
  have between : (doubleQuote ++ nameSeparator).split middle.rest =
      some (last ++ taken, head :: more ++ tail) := by
    rw [rest]
    exact split_seq_iff.mpr ⟨last, gap ++ (content ++ tail), taken, ending, colon, rfl⟩
  obtain ⟨right, separated, rest⟩ := Pattern.parse_of_split between
  obtain ⟨two, stop, readValue, final⟩ := valueComplete right _ tail rest isContent follows
  exact ⟨_, stop, Parser.pair_iff.mpr
    ⟨_, left, one, middle, _, right, two, opening, readKey, separated, readValue, rfl⟩, final⟩

/-- A name is written in octets that are characters on their own. -/
theorem valid_of_spells {pattern : Pattern} (steady : pattern.steady = true)
    (sure : pattern.Deterministic fun _ => false)
    (low : pattern.Spells fun character => ∀ octet ∈ character.bytes, octet < 0x80) {text : Text}
    (member : text ∈ pattern.language) : Utf8.Valid text.bytes := by
  have taken := split_of_mem steady sure member (HeadIn.nil _)
  exact Utf8.valid_of_ascii (low_of_split steady low taken)

theorem low_of_isNameChar {octet : UInt8} (name : Octet.isNameChar octet = true) : octet < 0x80 := by
  simp only [Octet.isNameChar, Octet.isNameStart, Octet.isAlpha, Octet.isDigit, Bool.or_eq_true,
    Octet.between_iff] at name
  rcases name with ((⟨_, upper⟩ | ⟨_, lower⟩) | underscore) | ⟨_, digit⟩
  · exact UInt8.lt_of_le_of_lt upper (by decide)
  · exact UInt8.lt_of_le_of_lt lower (by decide)
  · obtain rfl : '_'.toUInt8 = octet := by simpa [Octet.oneOf] using underscore
    decide
  · exact UInt8.lt_of_le_of_lt digit (by decide)

theorem octet_low {accepts : UInt8 → Bool} (low : ∀ octet, accepts octet = true → octet < 0x80) :
    (octet accepts).Spells fun character => ∀ octet ∈ character.bytes, octet < 0x80 := by
  intro character accepted octet inside
  cases character with
  | encoded high low => cases accepted
  | plain only =>
    rw [List.mem_singleton.mp inside]
    exact low only accepted

theorem quote_apart_name : UriChar.Apart (UriChar.isDelimiter '"') UriChar.isNameChar :=
  UriChar.Apart.symm (UriChar.apart_delimiter rfl fun _ _ => rfl)

theorem quote_apart_dot :
    UriChar.Apart (UriChar.isDelimiter '"') (UriChar.isPlain (· == '.'.toUInt8)) :=
  UriChar.apart_plain rfl

theorem identifier_spells_low :
    Pattern.identifier.Spells fun character => ∀ octet ∈ character.bytes, octet < 0x80 := by
  refine ⟨⟨octet_low fun octet start => low_of_isNameChar ?_, octet_low fun _ => low_of_isNameChar⟩, trivial⟩
  rw [Octet.isNameChar, start, Bool.true_or]

theorem qualifiedName_spells_low :
    qualifiedName.Spells fun character => ∀ octet ∈ character.bytes, octet < 0x80 := by
  refine ⟨identifier_spells_low, octet_low fun octet dot => ?_, identifier_spells_low⟩
  rw [beq_iff_eq.mp dot]
  decide

theorem identifier_complete (levels : Nat) :
    (identifier.parse levels).Complete Abnf.identifier (UriChar.isDelimiter '"') := by
  refine Parser.lexeme_complete (by decide) (identifier_deterministic quote_apart_name) fun text member => ?_
  rw [← language_identifier] at member
  refine ⟨member, ?_⟩
  rw [Meaning.value?, Option.isSome_map, Utf8.decode?_isSome_iff]
  exact valid_of_spells (by decide) (identifier_deterministic (UriChar.false_apart _))
    identifier_spells_low member

theorem annotationTerm_complete (levels : Nat) :
    (annotationTerm.parse levels).Complete Abnf.annotationKey (UriChar.isDelimiter '"') := by
  refine Parser.lexeme_complete (by decide)
    ⟨trivial, qualifiedName_deterministic quote_apart_name quote_apart_dot⟩ fun text member => ?_
  refine ⟨by rwa [language_annotationTerm], ?_⟩
  obtain ⟨_, sign, name, isName, rfl⟩ := member
  obtain ⟨character, _, rfl⟩ := Abnf.mem_mark.mp sign
  have isName : name ∈ Abnf.qualifiedName := isName
  rw [← language_qualifiedName] at isName
  rw [Meaning.value?, Option.isSome_map, Utf8.decode?_isSome_iff]
  exact valid_of_spells (by decide)
    (qualifiedName_deterministic (UriChar.false_apart _) (UriChar.false_apart _))
    qualifiedName_spells_low isName

theorem withKind_complete {rule : Rule} {grammar : Language UriChar} {follow : UriChar → Bool}
    (complete : (rule.parse levels).Complete grammar follow) (kind : Kind) :
    ((Rule.withKind kind rule).parse levels).Complete grammar follow := by
  intro start text tail here member follows
  obtain ⟨token, stop, read, rest⟩ := complete start text tail here member follows
  exact ⟨_, stop, Rule.parse_withKind_iff.mpr ⟨token, read, rfl⟩, rest⟩

theorem objectMember_complete (complete : (jsonValue.parse levels).Complete values UriChar.isItemEnd)
    (visible : Abnf.Visible heads values) :
    ((Rule.orElse annotationMember propertyMember).parse levels).Complete (Abnf.member values)
      UriChar.isItemEnd :=
  Parser.or_complete
    (withKind_complete (member_complete (annotationTerm_complete levels) complete visible) .annotationMember)
    (member_complete (identifier_complete levels) complete visible)
    (Parser.agree_of_excludes fun _ _ _ => annotationMember_excludes levels)

end Member

section Primitive

theorem jsonString_complete (levels : Nat) :
    (jsonString.parse levels).Complete Abnf.string UriChar.isItemEnd := by
  refine Parser.lexeme_complete (by decide) jsonString_deterministic fun text member => ?_
  obtain ⟨spelled, valid⟩ := mem_string_iff.mp member
  refine ⟨spelled, ?_⟩
  rw [Meaning.value?, Option.isSome_map, Utf8.decode?_isSome_iff]
  exact valid

theorem jsonNumber_complete (levels : Nat) :
    (jsonNumber.parse levels).Complete Abnf.number UriChar.isItemEnd :=
  Parser.lexeme_complete (by decide) jsonNumber_deterministic fun _ member => ⟨member, rfl⟩

theorem keyword_complete (levels : Nat) (keyword : String) (steady : (word keyword).steady = true)
    (meaning : Meaning) {value : Value} (means : ∀ text, meaning.value? text = some value) :
    ((Rule.lexeme .literal meaning (word keyword)).parse levels).Complete (Abnf.word keyword)
      UriChar.isItemEnd := by
  refine Parser.lexeme_complete steady (text_deterministic _ _) fun text member => ?_
  exact ⟨by rwa [language_word], by rw [means]; rfl⟩

/-- The first character decides between the primitive values. -/
theorem jsonPrimitive_complete (levels : Nat) :
    (jsonPrimitive.parse levels).Complete Abnf.primitive UriChar.isItemEnd := by
  have isTrue := keyword_complete levels "true" (by decide) (.jsonBoolean true) fun _ => rfl
  have isFalse := keyword_complete levels "false" (by decide) (.jsonBoolean false) fun _ => rfl
  have isNull := keyword_complete levels "null" (by decide) .jsonNull fun _ => rfl
  have nulls := Rule.orElse_complete isNull (Rule.never_complete levels) (by decide) (by decide)
    (UriChar.false_apart _).symm
  have booleans := Rule.orElse_complete isTrue isFalse (by decide) (by decide) true_apart_false
  have keywords := Rule.orElse_complete booleans nulls (by decide) (by decide) jsonBoolean_apart
  have plain := Rule.orElse_complete (jsonNumber_complete levels) keywords (by decide) (by decide)
    jsonNumber_apart
  have complete := Rule.orElse_complete (jsonString_complete levels) plain (by decide) (by decide)
    jsonString_apart
  refine complete.mono (le_of_eq ?_) fun _ accepted => accepted
  rw [Abnf.primitive, add_zero]
  ac_rfl

end Primitive

section Structure

variable {levels : Nat} {grammar : Language UriChar}

theorem array_complete {item : Rule} {heads : UriChar → Bool}
    (complete : (item.parse levels).Complete grammar UriChar.isItemEnd)
    (visible : Abnf.Visible heads grammar) (apart : UriChar.Apart heads (UriChar.isDelimiter ']')) :
    ((array item).parse levels).Complete (Abnf.array grammar) anything :=
  list_complete complete visible squares apart .array

theorem visible_primitive : Abnf.Visible jsonPrimitive.leads Abnf.primitive := by
  have space := (jsonPrimitive_apart ' ' (by decide) (by decide)).symm
  have tab := (jsonPrimitive_apart '\t' (by decide) (by decide)).symm
  refine Abnf.visible_of_heads (UriChar.Apart.or space tab).symm fun text member => ?_
  obtain ⟨token, stop, read, _⟩ :=
    jsonPrimitive_complete 0 ⟨0, text⟩ text [] (List.append_nil text).symm member (HeadIn.nil _)
  obtain ⟨character, rest, same, accepted⟩ := Rule.parse_begins 0 (by decide) _ _ _ read
  exact ⟨character, rest, same, accepted⟩

theorem primitiveArray_complete (levels : Nat) :
    (primitiveArray.parse levels).Complete (Abnf.array Abnf.primitive) anything :=
  array_complete (jsonPrimitive_complete levels) visible_primitive
    (jsonPrimitive_apart ']' (by decide) (by decide))

theorem visible_array (item : Language UriChar) :
    Abnf.Visible (UriChar.isDelimiter '[') (Abnf.array item) :=
  Abnf.visible_delimited item ']' squares.opening

/-- A value is read as what it is meant to be. Only an empty array could be meant in two ways. -/
theorem jsonValue_complete (complete : (object.parse levels).Complete grammar anything)
    (visible : Abnf.Visible (UriChar.isDelimiter '{') grammar) :
    (jsonValue.parse levels).Complete (Abnf.value grammar) UriChar.isItemEnd := by
  have any (character : UriChar) : character.isItemEnd = true → anything character = true := fun _ => rfl
  have objects := complete.mono le_rfl any
  have objectArrays := (array_complete objects visible (UriChar.delimiters_apart (by decide))).mono le_rfl any
  have primitiveArrays := (primitiveArray_complete levels).mono le_rfl any
  have objectFirst : Parser.Agree (object.parse levels) (objectArray.parse levels) :=
    Parser.agree_of_excludes fun _ _ _ read => (object_excludes levels read).1
  have objectOnly : Parser.Agree (object.parse levels) (jsonPrimitive.parse levels) :=
    Parser.agree_of_excludes fun _ _ _ read => (object_excludes levels read).2.1
  have objectAlone : Parser.Agree (object.parse levels) (primitiveArray.parse levels) :=
    Parser.agree_of_excludes fun _ _ _ read => (object_excludes levels read).2.2
  have arrayOnly : Parser.Agree (objectArray.parse levels) (jsonPrimitive.parse levels) :=
    Parser.agree_of_excludes fun _ _ _ read => (array_excludes levels read).2
  have arrays : Parser.Agree (objectArray.parse levels) (primitiveArray.parse levels) :=
    fun _ _ _ read readToo => by rw [(arrays_meet levels read readToo).2.2]
  have primitiveOnly : Parser.Agree (jsonPrimitive.parse levels) (primitiveArray.parse levels) := by
    intro start found foundToo read readToo
    rw [(array_excludes levels readToo).2] at read
    cases read
  have values := Parser.or_complete primitiveArrays (Rule.never_complete levels) Parser.agree_none
  have plain := Parser.or_complete (jsonPrimitive_complete levels) values
    (primitiveOnly.or Parser.agree_none)
  have structured := Parser.or_complete objectArrays plain (arrayOnly.or (arrays.or Parser.agree_none))
  have all := Parser.or_complete objects structured
    (objectFirst.or (objectOnly.or (objectAlone.or Parser.agree_none)))
  refine Parser.Complete.mono all (le_of_eq ?_) fun _ accepted => accepted
  rw [Abnf.value, add_zero]
  ac_rfl

theorem visible_value (visible : Abnf.Visible (UriChar.isDelimiter '{') grammar) :
    ∃ heads, Abnf.Visible heads (Abnf.value grammar) :=
  ⟨_, ((visible.add (visible_array grammar)).add visible_primitive).add (visible_array Abnf.primitive)⟩

theorem visible_object (depth : Nat) : Abnf.Visible (UriChar.isDelimiter '{') (Abnf.object depth) := by
  cases depth with
  | zero => exact fun _ member => absurd member (Language.notMem_zero _)
  | succ depth => exact Abnf.visible_delimited _ '}' braces.opening

theorem visible_member (value : Language UriChar) :
    ∃ heads, Abnf.Visible heads (Abnf.member value) ∧ UriChar.Apart heads (UriChar.isDelimiter '}') := by
  have apart : UriChar.Apart (UriChar.isDelimiter '"') (UriChar.isDelimiter '}') :=
    UriChar.delimiters_apart (by decide)
  exact ⟨_, (Abnf.visible_pair _ value).add (Abnf.visible_pair _ value), apart.or apart⟩

/-- Objects are opened one inside the other, each with a level less. -/
theorem object_complete (levels : Nat) : (object.parse levels).Complete (Abnf.object levels) anything := by
  induction levels with
  | zero => exact fun _ _ _ _ member => absurd member (Language.notMem_zero _)
  | succ levels ih =>
    have visible := visible_object levels
    obtain ⟨_, visibleValue⟩ := visible_value visible
    obtain ⟨_, visibleMember, apart⟩ := visible_member (Abnf.value (Abnf.object levels))
    exact list_complete (objectMember_complete (jsonValue_complete ih visible) visibleValue) visibleMember
      braces apart .object

theorem objectArray_complete (levels : Nat) :
    (objectArray.parse levels).Complete (Abnf.array (Abnf.object levels)) anything :=
  array_complete ((object_complete levels).mono le_rfl fun _ _ => rfl) (visible_object levels)
    (UriChar.delimiters_apart (by decide))

end Structure

theorem nil_notMem_of_visible {heads : UriChar → Bool} {grammar : Language UriChar}
    (visible : Abnf.Visible heads grammar) : [] ∉ grammar := by
  intro member
  obtain ⟨_, _, same, _⟩ := visible [] member
  cases same

/-- Objects, arrays of objects and arrays of primitive values are read exactly. -/
theorem structures_exact :
    object.Exact (Abnf.object maxDepth) (fun source => Token.IsObject source maxDepth) ∧
    objectArray.Exact (Abnf.array (Abnf.object maxDepth))
      (fun source => Token.IsArray source (Token.IsObject source maxDepth)) ∧
    primitiveArray.Exact (Abnf.array Abnf.primitive)
      (fun source => Token.IsArray source (Token.IsPrimitive source)) := by
  refine ⟨?_, ?_, ?_⟩
  · exact Rule.exact_of_parser (by decide) trivial (fun source => object_sound source maxDepth)
      (object_complete maxDepth) (nil_notMem_of_visible (visible_object maxDepth))
  · exact Rule.exact_of_parser (by decide) trivial (fun source => array_sound (object_sound source maxDepth))
      (objectArray_complete maxDepth) (nil_notMem_of_visible (visible_array _))
  · exact Rule.exact_of_parser (by decide) jsonPrimitive_fits
      (fun source => array_sound (jsonPrimitive_sound source maxDepth)) (primitiveArray_complete maxDepth)
      (nil_notMem_of_visible (visible_array _))

example : (object.tokenAt? (Bytes.ofString "\x7b\"@a.b\" : [1 , 2], \"c\":\x7b\x7d\x7d  ") 0).map (fun token =>
    (token.span.stop, token.children.map (·.kind))) = some (26, [.annotationMember, .property]) := by
  decide +kernel

end ODataLiteral.Grammar
