import ODataLiteral.Proofs.Geo.Soundness
import ODataLiteral.Proofs.Literal.Precedence
import ODataLiteral.Proofs.Rule.Completeness
import ODataLiteral.Proofs.Rule.Exact

/-! The rules of spatial literals read every text of their grammar, as long as its lists open in the plain form. A
number is read before a space, a comma or a closing parenthesis, and everything else before any character.
So spatial literals are read exactly where their grammar derives the octets, and their tokens show all that stands in
them. -/
namespace ODataLiteral

open Pattern

/-- What may stand after an item of a list. -/
def UriChar.isListMark (character : UriChar) : Bool :=
  character.isDelimiter ',' || character.isDelimiter ')'

/-- What may stand after a coordinate. -/
def UriChar.isCoordinateEnd (character : UriChar) : Bool :=
  character.isPlain Octet.isSpace || character.isListMark

namespace Grammar

variable {levels : Nat} {grammar : Language UriChar}

section Position

theorem sign_deterministic {follow : UriChar → Bool} : Pattern.sign.Deterministic follow :=
  ⟨⟨trivial, trivial⟩, rfl, UriChar.apart_plain rfl, nofun⟩

theorem coordinateEnd_apart_digit : UriChar.Apart UriChar.isCoordinateEnd UriChar.isDigit := by
  have mark {one : Char} (other : Octet.isDigit one.toUInt8 = false) :
      UriChar.Apart (UriChar.isDelimiter one) UriChar.isDigit :=
    UriChar.Apart.symm (UriChar.apart_delimiter other fun _ _ => rfl)
  have space : UriChar.Apart (UriChar.isPlain Octet.isSpace) UriChar.isDigit :=
    UriChar.Apart.symm (UriChar.apart_oneOf rfl)
  exact UriChar.Apart.or space (UriChar.Apart.or (mark (by decide)) (mark (by decide)))

/-- A sign is no digit, and neither of them is what may follow a numeral. -/
theorem fraction_deterministic :
    (Pattern.fraction ++ optional exponent).Deterministic UriChar.isCoordinateEnd := by
  have mark (one : Char) (other : Octet.isDigit one.toUInt8 = false) :
      UriChar.Apart (UriChar.isPlain (· == one.toUInt8)) UriChar.isDigit :=
    UriChar.Apart.symm (UriChar.apart_plain other)
  have raised : exponent.leads = UriChar.isPlain (· == 'e'.toUInt8) :=
    (leads_of_filled rfl).trans (leads_of_filled rfl)
  have exponents : UriChar.Apart (optional exponent).leads UriChar.isDigit := raised ▸ mark 'e' (by decide)
  refine ⟨⟨⟨⟨⟨sign_deterministic, rfl, .inr ?_⟩, trivial, rfl, .inr ?_⟩, trivial⟩, trivial, rfl, .inr ?_⟩,
    ⟨⟨trivial, sign_deterministic, rfl, .inr ?_⟩, trivial, rfl, .inr ?_⟩, rfl, .inr ?_⟩
  · exact UriChar.apart_sign rfl rfl fun _ _ => rfl
  · exact UriChar.Apart.or (mark '.' (by decide)) fun _ none => (by cases none)
  · exact UriChar.Apart.or exponents coordinateEnd_apart_digit
  · exact UriChar.apart_sign rfl rfl fun _ _ => rfl
  · exact UriChar.Apart.or exponents coordinateEnd_apart_digit
  · exact raised ▸ UriChar.apart_plain rfl

theorem notANumberOrInfinity_deterministic {follow : UriChar → Bool} :
    notANumberOrInfinity.Deterministic follow := by
  refine ⟨⟨text_deterministic _ _, ⟨text_deterministic _ _, text_deterministic _ _⟩, rfl, ?_, nofun⟩,
    rfl, ?_, nofun⟩
  · exact apart_word rfl
  · exact apart_word rfl

theorem double_takes : Pattern.double.Takes UriChar.isCoordinateEnd := by
  intro text member tail follows
  rcases (Language.mem_add _ _ _).mp member with named | numeral
  · exact split_alt_iff.mpr (.inl (split_of_mem (by decide) notANumberOrInfinity_deterministic named follows))
  · have taken := split_of_mem (by decide) fraction_deterministic numeral follows
    obtain ⟨before, _, _, front, _, _⟩ := split_seq_iff.mp taken
    exact split_alt_iff.mpr (.inr ⟨fraction_excludes_notANumberOrInfinity _ _ _ front, taken⟩)

theorem double_complete (levels : Nat) :
    (double.parse levels).Complete Abnf.double UriChar.isCoordinateEnd := by
  refine Parser.lexeme_complete_of_takes double_takes fun text member => ⟨?_, rfl⟩
  rwa [language_double]

theorem takes_char (accepts : UriChar → Bool) (follow : UriChar → Bool) : (char accepts).Takes follow :=
  takes_of_deterministic rfl trivial

theorem takes_empty (follow : UriChar → Bool) : Pattern.empty.Takes follow :=
  takes_of_deterministic rfl trivial

theorem takes_word (keyword : String) (steady : (word keyword).steady = true) (follow : UriChar → Bool) :
    (word keyword).Takes follow :=
  takes_of_deterministic steady (text_deterministic _ _)

theorem position_complete (levels : Nat) :
    (position.parse levels).Complete Abnf.position UriChar.isListMark := by
  have double := double_complete levels
  have last := double.mono le_rfl fun character (mark : character.isListMark = true) => by
    rw [UriChar.isCoordinateEnd, mark, Bool.or_true]
  have whole := Rule.pair_complete (takes_empty _) double (takes_char (UriChar.isPlain Octet.isSpace) _)
    (fun character space => by
      have space : character.isPlain Octet.isSpace = true := by simpa [leads, nullable] using space
      rw [UriChar.isCoordinateEnd, space, Bool.true_or]) last .position
  have same : Pattern.empty.language * Abnf.double * (octet Octet.isSpace).language * Abnf.double =
      Abnf.position := by
    show 1 * Abnf.double * _ * _ = _
    rw [one_mul]
    rfl
  rw [← same]
  exact whole

theorem pointData_complete (levels : Nat) :
    (pointData.parse levels).Complete Abnf.pointData anything := by
  have whole := Rule.enclosed_complete (takes_char (UriChar.isDelimiter '(') _) (position_complete levels)
    (takes_char (UriChar.isDelimiter ')') anything) (fun character close => by
      have close : character.isDelimiter ')' = true := by simpa [leads, nullable] using close
      rw [UriChar.isListMark, close, Bool.or_true]) .literal
  rw [Abnf.pointData, ← language_delimiter, ← language_delimiter]
  exact whole

end Position

section List

variable {item : Rule}

theorem framed_list (grammar : Language UriChar) :
    Parser.Framed grammar (Abnf.mark ',') (Abnf.mark ')') UriChar.isListMark comma closeParen where
  closes := by
    rintro _ closed tail
    obtain ⟨close, closes, rfl⟩ := Abnf.mem_mark.mp closed
    refine ⟨?_, split_char_iff.mpr ⟨close, closes, rfl, rfl⟩⟩
    rintro _ ⟨⟩
    rw [UriChar.isListMark, closes, Bool.or_true]
  goesOn := by
    rintro _ separates rest
    obtain ⟨mark, isComma, rfl⟩ := Abnf.mem_mark.mp separates
    have other : mark.isDelimiter ')' = false := UriChar.delimiters_apart (by decide) mark isComma
    constructor
    · rintro _ ⟨⟩
      rw [UriChar.isListMark, isComma, Bool.true_or]
    · rw [closeParen, delimiter, List.singleton_append, split_char_cons, if_neg (by simp [other])]
  separates := by
    rintro _ separates next member rest
    obtain ⟨mark, isComma, rfl⟩ := Abnf.mem_mark.mp separates
    exact ⟨[mark], next, split_char_iff.mpr ⟨mark, isComma, rfl, rfl⟩, member⟩

/-- A list is read whatever follows its closing parenthesis. No item begins with one. -/
theorem geoList_complete (complete : (item.parse levels).Complete grammar UriChar.isListMark)
    {heads : UriChar → Bool} (leads : item.LeadsIn heads)
    (apart : UriChar.Apart heads (UriChar.isDelimiter ')')) {keyword : Text} {opens : Language UriChar}
    (takes : (text keyword ++ plain '(').Takes anything)
    (opening : (text keyword ++ plain '(').language = opens) (mayBeEmpty : Bool) :
    ((geoList keyword item mayBeEmpty).parse levels).Complete (Abnf.list opens grammar mayBeEmpty)
      anything := by
  rintro start _ tail here ⟨_, ⟨before, opened, middle, filled, rfl⟩, last, closed, rfl⟩ _
  rw [List.append_assoc, List.append_assoc] at here
  rw [← opening] at opened
  have read := takes before opened (middle ++ (last ++ tail)) fun _ _ => rfl
  rw [← here] at read
  obtain ⟨first, begins, rest⟩ := Pattern.parse_of_split read
  have items (some : middle ∈ Abnf.row (Abnf.mark ',') grammar) : ∃ tokens stop,
      Parser.Items (item.parse levels) comma closeParen first tokens stop ∧ stop.rest = tail := by
    obtain ⟨one, parts, member, every, rfl⟩ := Abnf.mem_row.mp some
    exact Parser.items_complete complete (framed_list grammar) closed member every (by rw [rest, List.append_assoc])
  have list (some : middle ∈ Abnf.row (Abnf.mark ',') grammar) : ∃ token stop,
      (geoList keyword item mayBeEmpty).parse levels start = Option.some (token, stop) ∧
        stop.rest = tail := by
    obtain ⟨tokens, stop, run, final⟩ := items some
    -- The first item begins where the list could be closed, but not with what closes it.
    have goesOn : closeParen.parse first = none := by
      obtain ⟨character, others, same, lead⟩ := run.ledBy (Rule.parse_begins levels leads.steady)
      rw [Pattern.parse_eq_none, same, closeParen, delimiter, split_char_cons,
        if_neg (by simp [apart character (leads.leads character lead)])]
    have read := (Parser.items_iff (Rule.parse_forward levels item) rfl rfl).mpr run
    exact ⟨_, stop, Parser.list_iff.mpr ⟨_, first, tokens, begins, rfl, .inr ⟨fun _ => goesOn, read⟩⟩,
      final⟩
  cases mayBeEmpty with
  | false => exact list filled
  | true =>
    rcases Abnf.mem_optional.mp filled with rfl | some
    · have final := ((framed_list grammar).closes last closed tail).2
      rw [← List.nil_append (last ++ tail), ← rest] at final
      obtain ⟨stop, closing, final⟩ := Pattern.parse_of_split final
      exact ⟨_, stop, Parser.list_iff.mpr ⟨_, first, [], begins, rfl, .inl ⟨rfl, rfl, _, closing⟩⟩, final⟩
    · exact list some

theorem opening_takes {keyword : Text} (steady : (text keyword).steady = true) :
    (text keyword ++ plain '(').Takes anything := by
  refine takes_of_deterministic ?_ ⟨text_deterministic _ _, trivial⟩
  exact Bool.and_eq_true_iff.mpr ⟨steady, rfl⟩

theorem language_opening (keyword : String) :
    (text (Text.ofWord keyword) ++ plain '(').language = Abnf.word keyword * Abnf.rawOpen := by
  rw [← language_word]
  rfl

end List

section Data

theorem floatingLead_apart : UriChar.Apart UriChar.isFloatingLead (UriChar.isDelimiter ')') := by
  refine UriChar.Apart.or (UriChar.Apart.or (UriChar.Apart.or ?_ ?_) ?_) ?_
  · exact plain_apart_delimiter (by decide)
  · exact UriChar.delimiters_apart (by decide)
  · exact plain_apart_delimiter (by decide)
  · exact plain_apart_delimiter (by decide)

theorem position_leads : position.LeadsIn UriChar.isFloatingLead :=
  ⟨rfl, double_leads.leads⟩

theorem pointData_leads : pointData.LeadsIn (UriChar.isDelimiter '(') := by
  refine ⟨rfl, fun character lead => ?_⟩
  have lead : (character.isDelimiter '(' || false) = true := lead
  rwa [Bool.or_false] at lead

theorem geoList_leads {item : Rule} (steady : (geoList [] item false).steady = true) :
    (geoList [] item false).LeadsIn (UriChar.isPlain (· == '('.toUInt8)) := by
  refine ⟨steady, fun character lead => ?_⟩
  have lead : (character.isPlain (· == '('.toUInt8) || false) = true := lead
  rwa [Bool.or_false] at lead

theorem lineStringData_leads : lineStringData.LeadsIn (UriChar.isPlain (· == '('.toUInt8)) :=
  geoList_leads rfl

theorem polygonData_leads : polygonData.LeadsIn (UriChar.isPlain (· == '('.toUInt8)) :=
  geoList_leads rfl

theorem lineStringData_complete (levels : Nat) :
    (lineStringData.parse levels).Complete (Abnf.lineStringData Abnf.rawOpen) anything :=
  geoList_complete (position_complete levels) position_leads floatingLead_apart (opening_takes rfl)
    (one_mul _) false

theorem polygonData_complete (levels : Nat) :
    (polygonData.parse levels).Complete (Abnf.polygonData Abnf.rawOpen) anything :=
  geoList_complete ((lineStringData_complete levels).mono le_rfl fun _ _ => rfl) lineStringData_leads
    (plain_apart_delimiter (by decide)) (opening_takes rfl) (one_mul _) false

end Data

section Shape

variable {data : Rule} {kind : Shape} {keyword : String}

theorem shapeWith_complete (complete : (data.parse levels).Complete grammar anything)
    (named : kind.name = keyword) (steady : (word kind.name).steady = true) :
    ((shapeWith kind data).parse levels).Complete (Abnf.word keyword * grammar) anything := by
  have whole := Rule.enclosed_complete (takes_word kind.name steady _) complete (takes_empty anything)
    (fun _ _ => rfl) .literal
  have same : (word kind.name).language * grammar * Pattern.empty.language =
      Abnf.word keyword * grammar := by
    rw [language_word, named]
    exact mul_one _
  rw [← same]
  exact whole

theorem shapesOf_complete (complete : (data.parse levels).Complete grammar anything)
    {heads : UriChar → Bool} (leads : data.LeadsIn heads)
    (apart : UriChar.Apart heads (UriChar.isDelimiter ')')) (named : kind.name = keyword)
    (steady : (text (Text.ofWord kind.name)).steady = true) :
    ((shapesOf kind data).parse levels).Complete
      (Abnf.list (Abnf.word keyword * Abnf.rawOpen) grammar true) anything := by
  rw [← named, ← language_opening]
  exact geoList_complete (complete.mono le_rfl fun _ _ => rfl) leads apart (opening_takes steady) rfl true

theorem shape_complete (collections : ((shape .collection).parse levels).Complete grammar anything)
    (kind : Shape) :
    ((shape kind).parse levels).Complete (Abnf.shape Abnf.rawOpen grammar kind) anything := by
  have lines := lineStringData_complete levels
  have polygons := polygonData_complete levels
  have points := pointData_complete levels
  have plain : UriChar.Apart (UriChar.isPlain (· == '('.toUInt8)) (UriChar.isDelimiter ')') :=
    plain_apart_delimiter (by decide)
  have either : UriChar.Apart (UriChar.isDelimiter '(') (UriChar.isDelimiter ')') :=
    UriChar.delimiters_apart (by decide)
  cases kind with
  | collection => exact collections
  | lineString => exact shapeWith_complete lines rfl rfl
  | multiLineString => exact shapesOf_complete lines lineStringData_leads plain rfl rfl
  | multiPoint => exact shapesOf_complete points pointData_leads either rfl rfl
  | multiPolygon => exact shapesOf_complete polygons polygonData_leads plain rfl rfl
  | point => exact shapeWith_complete points rfl rfl
  | polygon => exact shapeWith_complete polygons rfl rfl

/-- Where one shape reads, none of the others does, for each has a name of its own. -/
theorem shape_excludes {other : Shape} (different : kind ≠ other) : (shape kind).Excludes (shape other) := by
  refine Rule.Excludes.intro fun levels start found found' read readToo => ?_
  rcases List.prefix_or_prefix_of_prefix (name_of_shape read) (name_of_shape readToo) with front | front
  · exact different (name_injective _ _ front)
  · exact different (name_injective _ _ front).symm

theorem firstShape_eq_none {shapes : List Shape} {start : Place}
    (none : ∀ kind ∈ shapes, (shape kind).parse levels start = none) :
    (firstShape shapes).parse levels start = Option.none := by
  induction shapes with
  | nil => rfl
  | cons kind shapes ih =>
    obtain ⟨first, rest⟩ := List.forall_mem_cons.mp none
    show ((shape kind).parse levels start).or ((firstShape shapes).parse levels start) = _
    rw [first, ih rest]
    rfl

theorem firstShape_complete {shapes : List Shape} (different : shapes.Nodup)
    (complete : ∀ kind, ((shape kind).parse levels).Complete (Abnf.shape Abnf.rawOpen grammar kind) anything) :
    ((firstShape shapes).parse levels).Complete (Abnf.anyShape Abnf.rawOpen grammar shapes) anything := by
  -- A choice is complete when the alternatives exclude one another, for then the order does not matter.
  induction shapes with
  | nil =>
    rintro start text tail here ⟨kind, listed, _⟩
    cases listed
  | cons kind shapes ih =>
    obtain ⟨other, rest⟩ := List.nodup_cons.mp different
    have agree : Parser.Agree ((shape kind).parse levels) ((firstShape shapes).parse levels) := by
      refine Parser.agree_of_excludes fun start token stop read => firstShape_eq_none fun later member => ?_
      have different : kind ≠ later := fun same => other (by rwa [same])
      exact shape_excludes different _ _ _ read
    refine (Parser.or_complete (complete kind) (ih rest) agree).mono ?_ fun _ _ => rfl
    rintro text ⟨one, listed, drawn⟩
    rcases List.mem_cons.mp listed with rfl | listed
    · exact .inl drawn
    · exact .inr ⟨one, listed, drawn⟩

theorem anyShape_complete (collections : ((shape .collection).parse levels).Complete grammar anything) :
    (geoLiteral.parse levels).Complete (Abnf.anyShape Abnf.rawOpen grammar Shape.all) anything := by
  have complete : ((firstShape shapeOrder).parse levels).Complete
      (Abnf.anyShape Abnf.rawOpen grammar shapeOrder) anything :=
    firstShape_complete (by decide) (shape_complete collections)
  rw [geoLiteral_eq]
  refine complete.mono ?_ fun _ _ => rfl
  rintro text ⟨kind, _, drawn⟩
  exact ⟨kind, by cases kind <;> decide, drawn⟩

theorem shape_leads (kind : Shape) : (shape kind).LeadsIn (UriChar.isPlain Octet.isAlpha) := by
  have steady : (shape kind).steady = true := by cases kind <;> rfl
  have filled : (text (Text.ofWord kind.name)).nullable = false := by cases kind <;> rfl
  have letter : (Text.ofWord kind.name).head?.all (UriChar.isPlain Octet.isAlpha) = true := by
    cases kind <;> rfl
  refine ⟨steady, fun character lead => accepts_of_word letter ?_⟩
  have opening : (text (Text.ofWord kind.name) ++ plain '(').leads = (word kind.name).leads :=
    leads_of_filled filled
  cases kind with
  | collection | multiLineString | multiPoint | multiPolygon =>
    rw [← opening, ← Bool.or_false ((text _ ++ plain '(').leads character)]
    exact lead
  | lineString | point | polygon =>
    rw [← Bool.or_false ((word _).leads character)]
    exact lead

theorem anyShape_leads : geoLiteral.LeadsIn (UriChar.isPlain Octet.isAlpha) := by
  have first (shapes : List Shape) : ∀ character, (firstShape shapes).leads character = true →
      character.isPlain Octet.isAlpha = true := by
    induction shapes with
    | nil => exact fun _ lead => (by cases lead)
    | cons kind shapes ih =>
      intro character lead
      rcases Bool.or_eq_true_iff.mp lead with lead | lead
      · exact (shape_leads kind).leads character lead
      · exact ih character lead
  exact ⟨by decide, geoLiteral_eq ▸ first shapeOrder⟩

theorem collection_complete (levels : Nat) :
    ((shape .collection).parse levels).Complete (Abnf.collection Abnf.rawOpen levels) anything := by
  induction levels with
  | zero => exact fun _ _ _ _ member => absurd member (Language.notMem_zero _)
  | succ levels ih =>
    exact geoList_complete ((anyShape_complete ih).mono le_rfl fun _ _ => rfl) anyShape_leads
      (plain_apart_delimiter (by decide)) (opening_takes rfl) (language_opening "Collection") false

theorem geoLiteral_complete (levels : Nat) :
    (geoLiteral.parse levels).Complete (Abnf.geoLiteral Abnf.rawOpen levels) anything :=
  anyShape_complete (collection_complete levels)

end Shape

/-- The literals of one shape are read exactly where the grammar of the shape derives the octets. -/
theorem shape_exact (kind : Shape) :
    (shape kind).Exact (Abnf.shape Abnf.rawOpen (Abnf.collection Abnf.rawOpen maxDepth) kind)
      (fun source => Token.IsShape source (Token.IsCollection source maxDepth) kind) := by
  have steady := (shape_leads kind).steady
  have complete := shape_complete (collection_complete maxDepth) kind
  refine Rule.exact_of_shows steady (shape_fits kind) (fun source => ?_) complete
    (Rule.nil_notMem_of_complete steady complete)
  refine (shape_shows (collection_shows source maxDepth) kind).mono fun _ shown => ?_
  exact ⟨Token.IsShape.spells shown fun _ => Token.IsCollection.spells, shown⟩

/-- What is read is a literal of the grammar whose lists open in the plain form, and every such literal is read as a
whole. The grammar in which a list may also open in the encoded form has all these literals. -/
theorem geoLiteral_exact :
    geoLiteral.Exact (Abnf.geoLiteral Abnf.rawOpen maxDepth)
        (fun source => Token.IsGeoLiteral source maxDepth) ∧
      Abnf.geoLiteral Abnf.rawOpen maxDepth ≤ Abnf.geoLiteral (Abnf.mark '(') maxDepth := by
  refine ⟨?_, Abnf.geoLiteral_mono le_sup_left maxDepth⟩
  have complete := geoLiteral_complete maxDepth
  refine Rule.exact_of_shows (by decide) geoLiteral_fits (fun source => ?_) complete
    (Rule.nil_notMem_of_complete (by decide) complete)
  exact (geoLiteral_shows source maxDepth).mono fun _ shown => ⟨Token.IsGeoLiteral.spells shown, shown⟩

example : (geoLiteral.tokenAt?
    (Bytes.ofString "Collection(Point%281.0 2.0),MultiPoint(%29%2CLineString(0.5 NaN,1.0e-2 -INF))") 0).map
      (fun token => (token.span.stop, token.children.map (·.span.start))) = some (77, [11, 28, 45]) := by
  decide +kernel

end Grammar

end ODataLiteral
