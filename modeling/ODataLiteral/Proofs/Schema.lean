import ODataLiteral.Proofs.Geo.Soundness
import ODataLiteral.Proofs.Rule.Nodes

/-! What the value of a token looks like is settled by the kind of the token. A rule obeys when its own kind and the
forms of its parts go together, and then so do the tokens that it reads, at every depth of the tree.
A rule in another category keeps its value, so it is judged by the kind that its tokens end up with. -/
namespace ODataLiteral

namespace Token

/-- What stands inside spatial data. -/
def spatialForms : List (Kind × Value.Form) :=
  [(.literal, .position), (.literal, .nested), (.literal, .items)]

/-- What stands inside a structure. -/
def structureForms : List (Kind × Value.Form) :=
  [(.array, .items), (.object, .items)]

/-- The members of an object. -/
def memberForms : List (Kind × Value.Form) :=
  [(.property, .keyValue), (.annotationMember, .keyValue)]

/-- What stands in a member after its key. -/
def contentForms : List (Kind × Value.Form) :=
  [(.object, .items), (.array, .items), (.literal, .json)]

/-- The members of an enumeration. -/
def enumMemberForms : List (Kind × Value.Form) :=
  [(.enumMember, .identifier), (.enumMemberValue, .typed .int64)]

/-- The shapes that are lists of others and may be empty. -/
def multiShapes : List Shape :=
  [.multiLineString, .multiPoint, .multiPolygon]

/-- A token whose octets begin with the keyword of such a list and a parenthesis. -/
def OpensMulti (source : Bytes) (token : Token) : Prop :=
  ∃ kind ∈ multiShapes, Text.bytes (Text.ofWord kind.name ++ Text.ofWord "(") <+: token.octets source

/-- The value goes with the kind, and so do the forms of the tokens directly inside. -/
def Shaped (source : Bytes) (token : Token) : Prop :=
  match token.kind, token.value with
  | .literal, .null | .literal, .typed _ | .literal, .json _ => True
  | .literal, .position longitude latitude =>
    longitude.form = (.literal, .typed .double) ∧ latitude.form = (.literal, .typed .double)
  | .literal, .nested inner => inner.form ∈ spatialForms
  | .literal, .items items =>
    (∀ item ∈ items, item.form ∈ spatialForms) ∧ (items = [] → token.OpensMulti source)
  | .literal, .srid identifier => identifier ≤ 99999
  | .literal, .fullGeo reference literal =>
    reference.form = (.literal, .srid) ∧ ∃ depth, literal.IsGeoLiteral source depth
  | .enumeration, .enumeration _ members =>
    members ≠ [] ∧ ∀ member ∈ members, member.form ∈ enumMemberForms
  | .enumMember, .identifier _ | .identifier, .identifier _ | .annotationTerm, .identifier _ => True
  | .enumMemberValue, .typed type => type = .int64
  | .property, .keyValue key content =>
    key.form = (.identifier, .identifier) ∧ content.form ∈ contentForms
  | .annotationMember, .keyValue key content =>
    key.form = (.annotationTerm, .identifier) ∧ content.form ∈ contentForms
  | .object, .items members => ∀ member ∈ members, member.form ∈ memberForms
  | .array, .items items =>
    (∀ item ∈ items, item.form = (.object, .items)) ∨ ∀ item ∈ items, item.form = (.literal, .json)
  | .arrayOrObject, .nested inner => inner.form ∈ structureForms
  | _, _ => False

end Token

open Token (spatialForms structureForms memberForms contentForms enumMemberForms multiShapes)

/-- A value without tokens in it that may stand in a token of a kind. -/
def Value.Form.leaf : Value.Form → Kind → Bool
  | null, .literal | typed _, .literal | json, .literal | srid, .literal => true
  | identifier, .identifier | identifier, .annotationTerm | identifier, .enumMember => true
  | typed type, .enumMemberValue => type = .int64
  | _, _ => false

def Construct.kind : Construct → Kind
  | object => .object
  | collection => .literal

namespace Rule

/-- The tokens of a rule have no other form than these. -/
def Only (rule : Rule) (forms : List (Kind × Value.Form)) : Prop :=
  ∀ form ∈ rule.forms, form ∈ forms

instance (rule : Rule) (forms : List (Kind × Value.Form)) : Decidable (rule.Only forms) :=
  inferInstanceAs (Decidable (∀ form ∈ rule.forms, form ∈ forms))

/-- What goes together in a rule whose tokens get another kind afterwards. -/
def Obeys : (Kind → Kind) → Rule → Prop
  | become, lexeme kind meaning pattern =>
    meaning.form.leaf (become kind) = true ∧ (meaning = .srid → Meaning.srid.Fits pattern)
  | become, enclosed kind _ inner _ =>
    (become kind = .literal ∧ inner.Only spatialForms ∨ become kind = .arrayOrObject ∧ inner.Only structureForms) ∧
      inner.Obeys id
  | become, pair .position _ first _ second =>
    become .literal = .literal ∧ first.Only [(.literal, .typed .double)] ∧
      second.Only [(.literal, .typed .double)] ∧ first.Obeys id ∧ second.Obeys id
  | become, pair .fullGeo _ first _ second =>
    become .literal = .literal ∧ first.Only [(.literal, .srid)] ∧ (∃ kind, second = Grammar.shape kind) ∧
      first.Obeys id ∧ second.Obeys id
  | become, pair .keyValue _ first _ second =>
    (become .property = .property ∧ first.Only [(.identifier, .identifier)] ∨
      become .property = .annotationMember ∧ first.Only [(.annotationTerm, .identifier)]) ∧
      second.Only contentForms ∧ first.Obeys id ∧ second.Obeys id
  | become, list kind opening item _ _ mayBeEmpty =>
    (become kind = .object ∧ item.Only memberForms ∨
      become kind = .array ∧ (item.Only [(.object, .items)] ∨ item.Only [(.literal, .json)]) ∨
      become kind = .literal ∧ item.Only spatialForms ∧ (mayBeEmpty = true →
        ∃ kind ∈ multiShapes, opening = Pattern.text (Text.ofWord kind.name) ++ Pattern.plain '(')) ∧
      item.Obeys id
  | become, enumeration _ _ member _ _ =>
    become .enumeration = .enumeration ∧ member.Only enumMemberForms ∧ member.Obeys id
  | become, withType type rule => ∀ form ∈ rule.forms, (Value.Form.typed type).leaf (become form.1) = true
  | become, withKind kind rule => rule.Obeys fun _ => become kind
  | become, orElse first second => first.Obeys become ∧ second.Obeys become
  | _, never => True
  | become, .construct named => become named.kind = named.kind

variable {source : Bytes} {levels : Nat} {become : Kind → Kind} {start stop : Place} {token : Token}

theorem Only.shows {rule : Rule} {forms : List (Kind × Value.Form)} (only : rule.Only forms) :
    (rule.parse levels).Shows source fun token => token.form ∈ forms :=
  fun _ _ _ _ read => only _ (form_mem_forms read)

theorem Only.eq {rule : Rule} {form : Kind × Value.Form} (only : rule.Only [form])
    (read : rule.parse levels start = some (token, stop)) : token.form = form :=
  List.mem_singleton.mp (only _ (form_mem_forms read))

end Rule

theorem Token.shaped_of_leaf {source : Bytes} {token : Token} (leaf : token.value.form.leaf token.kind = true)
    (few : ∀ identifier, token.value = .srid identifier → identifier ≤ 99999) : token.Shaped source := by
  obtain ⟨kind, span, value⟩ := token
  cases value with
  | srid identifier =>
    cases kind with
    | literal => exact few identifier rfl
    | _ => cases leaf
  | typed type =>
    cases kind with
    | literal => trivial
    | enumMemberValue =>
      have only : type = .int64 := of_decide_eq_true leaf
      exact only
    | _ => cases leaf
  | null | identifier _ | json _ => cases kind <;> trivial
  | position _ _ | nested _ | items _ | fullGeo _ _ | enumeration _ _ | keyValue _ _ => cases kind <;> cases leaf

namespace Rule

variable {source : Bytes} {levels : Nat} {become : Kind → Kind} {start stop : Place} {token : Token}

theorem lexeme_shaped {kind : Kind} {meaning : Meaning} {pattern : Pattern}
    (obeys : (lexeme kind meaning pattern).Obeys become)
    (read : (lexeme kind meaning pattern).parse levels start = some (token, stop)) :
    (token.withKind (become token.kind)).Shaped source := by
  obtain ⟨text, value, taken, known, rfl⟩ := Parser.lexeme_iff.mp read
  have form : value.form = meaning.form := Meaning.form_of_value? known
  apply Token.shaped_of_leaf
  · have leaf : value.form.leaf (become kind) = true := by
      rw [form]
      exact obeys.1
    exact leaf
  · rintro identifier same
    obtain rfl : value = .srid identifier := same
    cases meaning with
    | srid =>
      cases known
      have numeral : text.Numeral 5 := obeys.2 rfl _ _ _ (Pattern.parse_iff.mp taken).1
      exact Nat.le_of_lt_succ (Text.natural_lt_of_numeral numeral)
    | _ => cases form

theorem enclosed_shaped {kind : Kind} {opening closing : Pattern} {inner : Rule}
    (obeys : (enclosed kind opening inner closing).Obeys become)
    (read : (enclosed kind opening inner closing).parse levels start = some (token, stop)) :
    (token.withKind (become token.kind)).Shaped source := by
  obtain ⟨_, _, child, _, _, _, found, _, rfl⟩ := Parser.enclosed_iff.mp read
  have form := form_mem_forms found
  rcases obeys.1 with ⟨literal, only⟩ | ⟨structural, only⟩
  · simp only [Token.withKind, Token.Shaped, literal]
    exact only _ form
  · simp only [Token.withKind, Token.Shaped, structural]
    exact only _ form

theorem pair_shaped {pairing : Pairing} {opening between : Pattern} {first second : Rule}
    (obeys : (pair pairing opening first between second).Obeys become) (inside : start.In source)
    (read : (pair pairing opening first between second).parse levels start = some (token, stop)) :
    (token.withKind (become token.kind)).Shaped source := by
  obtain ⟨_, _, one, _, _, _, two, opened, readOne, separated, readTwo, rfl⟩ := Parser.pair_iff.mp read
  cases pairing with
  | position =>
    obtain ⟨literal, onlyOne, onlyTwo, _⟩ := obeys
    simp only [Token.withKind, Token.Shaped, Pairing.kind, Pairing.value, literal]
    exact ⟨onlyOne.eq readOne, onlyTwo.eq readTwo⟩
  | fullGeo =>
    obtain ⟨literal, onlyOne, ⟨kind, rfl⟩, _⟩ := obeys
    obtain ⟨_, on⟩ := Rule.parse_forward levels first _ _ _ readOne
    have here := ((inside.advances (Pattern.parse_advances opened)).advances on).advances
      (Pattern.parse_advances separated)
    simp only [Token.withKind, Token.Shaped, Pairing.kind, Pairing.value, literal]
    exact ⟨onlyOne.eq readOne, levels, kind,
      Grammar.shape_shows (Grammar.collection_shows source levels) kind _ _ _ here readTwo⟩
  | keyValue =>
    obtain ⟨⟨property, onlyOne⟩ | ⟨labelled, onlyOne⟩, onlyTwo, _⟩ := obeys
    · simp only [Token.withKind, Token.Shaped, Pairing.kind, Pairing.value, property]
      exact ⟨onlyOne.eq readOne, onlyTwo _ (form_mem_forms readTwo)⟩
    · simp only [Token.withKind, Token.Shaped, Pairing.kind, Pairing.value, labelled]
      exact ⟨onlyOne.eq readOne, onlyTwo _ (form_mem_forms readTwo)⟩

/-- The octets of a token begin with what its opening delimiter takes. -/
theorem opensMulti_of_parse {kind : Kind} {shape : Shape} {value : Value} {before behind : Text} {first : Place}
    (multi : shape ∈ multiShapes) (inside : start.In source)
    (opened : (Pattern.text (Text.ofWord shape.name) ++ Pattern.plain '(').parse start = some (before, first))
    (on : first.Advances behind stop) :
    Token.OpensMulti source { kind, span := { start := start.offset, stop := stop.offset }, value } := by
  have taken := (Pattern.parse_iff.mp opened).1
  obtain ⟨keyword, _, bracket, named, opens, same⟩ := Pattern.split_seq_iff.mp taken
  obtain ⟨rfl, _⟩ := Pattern.split_text_iff.mp named
  obtain ⟨character, accepted, rfl, _⟩ := Pattern.split_char_iff.mp opens
  rw [UriChar.eq_plain accepted] at same
  refine ⟨shape, multi, ?_⟩
  have octets : source.slice start.offset stop.offset = Text.bytes (before ++ behind) :=
    inside.slice ((Pattern.parse_advances opened).trans on)
  have whole : Text.bytes (before ++ behind) =
      Text.bytes (Text.ofWord shape.name ++ Text.ofWord "(") ++ behind.bytes := by
    rw [Text.bytes_append, same]
    rfl
  show _ <+: source.slice start.offset stop.offset
  rw [octets, whole]
  exact List.prefix_append _ _

theorem list_shaped {kind : Kind} {opening separator closing : Pattern} {item : Rule} {mayBeEmpty : Bool}
    (obeys : (list kind opening item separator closing mayBeEmpty).Obeys become) (inside : start.In source)
    (read : (list kind opening item separator closing mayBeEmpty).parse levels start = some (token, stop)) :
    (token.withKind (become token.kind)).Shaped source := by
  obtain ⟨_, first, tokens, opened, rfl, items⟩ := Parser.list_iff.mp read
  have forms {forms : List (Kind × Value.Form)} (only : item.Only forms) : ∀ token ∈ tokens, token.form ∈ forms := by
    rcases items with ⟨_, rfl, _⟩ | ⟨_, items⟩
    · exact List.forall_mem_nil _
    · exact forall_of_items only.shows (inside.advances (Pattern.parse_advances opened))
        (Parser.items_of_itemsWithin items)
  have form {form : Kind × Value.Form} (only : item.Only [form]) : ∀ token ∈ tokens, token.form = form :=
    fun token member => List.mem_singleton.mp (forms only token member)
  rcases obeys.1 with ⟨object, only⟩ | ⟨array, only | only⟩ | ⟨literal, only, multi⟩
  · simp only [Token.withKind, Token.Shaped, object]
    exact forms only
  · simp only [Token.withKind, Token.Shaped, array]
    exact .inl (form only)
  · simp only [Token.withKind, Token.Shaped, array]
    exact .inr (form only)
  · simp only [Token.withKind, Token.Shaped, literal]
    refine ⟨forms only, fun none => ?_⟩
    rcases items with ⟨may, _, _, closed⟩ | ⟨_, items⟩
    · obtain ⟨shape, member, rfl⟩ := multi may
      exact opensMulti_of_parse member inside opened (Pattern.parse_advances closed)
    · exact absurd none (ne_nil_of_items (Parser.items_of_itemsWithin items))

theorem enumeration_shaped {typeName opening separator closing : Pattern} {member : Rule}
    (obeys : (enumeration typeName opening member separator closing).Obeys become) (inside : start.In source)
    (read : (enumeration typeName opening member separator closing).parse levels start = some (token, stop)) :
    (token.withKind (become token.kind)).Shaped source := by
  obtain ⟨_, _, _, _, members, _, named, opened, items, _, rfl⟩ := Parser.enumeration_iff.mp read
  obtain ⟨enumerated, only, _⟩ := obeys
  have run := Parser.items_of_itemsWithin items
  have here := (inside.advances (Pattern.parse_advances named)).advances (Pattern.parse_advances opened)
  simp only [Token.withKind, Token.Shaped, enumerated]
  exact ⟨ne_nil_of_items run, forall_of_items only.shows here run⟩

theorem withType_shaped {type : EdmType} {rule : Rule} (obeys : (withType type rule).Obeys become)
    (read : (withType type rule).parse levels start = some (token, stop)) :
    (token.withKind (become token.kind)).Shaped source := by
  obtain ⟨child, found, rfl⟩ := parse_withType_iff.mp read
  exact Token.shaped_of_leaf (obeys _ (form_mem_forms found)) nofun

end Rule

namespace Grammar

theorem lexeme_obeys {kind : Kind} {meaning : Meaning} {pattern : Pattern} {become : Kind → Kind}
    (leaf : meaning.form.leaf (become kind) = true) (other : meaning ≠ .srid) :
    (Rule.lexeme kind meaning pattern).Obeys become :=
  ⟨leaf, fun same => absurd same other⟩

theorem srid_obeys : srid.Obeys id :=
  ⟨rfl, fun _ => Meaning.srid_fits⟩

theorem double_obeys : double.Obeys id :=
  lexeme_obeys rfl nofun

theorem position_obeys : position.Obeys id :=
  ⟨rfl, by decide, by decide, double_obeys, double_obeys⟩

theorem pointData_obeys : pointData.Obeys id :=
  ⟨.inl ⟨rfl, by decide⟩, position_obeys⟩

theorem row_obeys {item : Rule} (only : item.Only Token.spatialForms) (obeys : item.Obeys id) (keyword : Text) :
    (geoList keyword item false).Obeys id :=
  ⟨.inr (.inr ⟨rfl, only, nofun⟩), obeys⟩

theorem lineStringData_obeys : lineStringData.Obeys id :=
  row_obeys (by decide) position_obeys []

theorem polygonData_obeys : polygonData.Obeys id :=
  row_obeys (by decide) lineStringData_obeys []

theorem shapesOf_obeys {kind : Shape} (multi : kind ∈ multiShapes) {data : Rule}
    (only : data.Only Token.spatialForms) (obeys : data.Obeys id) : (shapesOf kind data).Obeys id :=
  ⟨.inr (.inr ⟨rfl, only, fun _ => ⟨kind, multi, rfl⟩⟩), obeys⟩

theorem shape_obeys (kind : Shape) : (shape kind).Obeys id := by
  cases kind with
  | collection => rfl
  | lineString => exact ⟨.inl ⟨rfl, by decide⟩, lineStringData_obeys⟩
  | multiLineString => exact shapesOf_obeys (by decide) (by decide) lineStringData_obeys
  | multiPoint => exact shapesOf_obeys (by decide) (by decide) pointData_obeys
  | multiPolygon => exact shapesOf_obeys (by decide) (by decide) polygonData_obeys
  | point => exact ⟨.inl ⟨rfl, by decide⟩, pointData_obeys⟩
  | polygon => exact ⟨.inl ⟨rfl, by decide⟩, polygonData_obeys⟩

theorem geoLiteral_obeys : geoLiteral.Obeys id :=
  ⟨shape_obeys .collection, shape_obeys .lineString, shape_obeys .multiPoint, shape_obeys .multiLineString,
    shape_obeys .multiPolygon, shape_obeys .point, shape_obeys .polygon, trivial⟩

theorem withSrid_obeys (kind : Shape) : (withSrid (shape kind)).Obeys id :=
  ⟨rfl, by decide, ⟨kind, rfl⟩, srid_obeys, shape_obeys kind⟩

theorem spatial_obeys (surface : Surface) (kind : Shape) : (spatial surface kind).Obeys id := by
  have forms : (Rule.enclosed .literal (surfacePrefix surface ++ Pattern.quote) (withSrid (shape kind))
    Pattern.quote).forms = [(.literal, .nested)] := rfl
  intro form member
  rw [forms] at member
  rw [List.mem_singleton.mp member]
  rfl

theorem typedLiteral_obeys (type : EdmType) (pattern : Pattern) : (typedLiteral type pattern).Obeys id :=
  lexeme_obeys rfl nofun

theorem signed_obeys (type : EdmType) (digits bits : Nat) : (signed type digits bits).Obeys id :=
  lexeme_obeys rfl nofun

theorem null_obeys : null.Obeys id :=
  lexeme_obeys rfl nofun

theorem byte_obeys : byte.Obeys id :=
  lexeme_obeys rfl nofun

theorem identifier_obeys : identifier.Obeys id :=
  lexeme_obeys rfl nofun

theorem annotationTerm_obeys : annotationTerm.Obeys id :=
  lexeme_obeys rfl nofun

theorem single_obeys : single.Obeys id := by
  show ∀ form ∈ double.forms, (Value.Form.typed .single).leaf form.1 = true
  decide

theorem enumMember_obeys : enumMember.Obeys id :=
  ⟨identifier_obeys, signed_obeys _ _ _⟩

theorem enumeration_obeys : enumeration.Obeys id :=
  ⟨rfl, by decide, enumMember_obeys⟩

theorem jsonPrimitive_obeys : jsonPrimitive.Obeys id :=
  ⟨lexeme_obeys rfl nofun, lexeme_obeys rfl nofun, ⟨lexeme_obeys rfl nofun, lexeme_obeys rfl nofun⟩,
    lexeme_obeys rfl nofun, trivial⟩

theorem objectArray_obeys : objectArray.Obeys id :=
  ⟨.inr (.inl ⟨rfl, .inl (by decide)⟩), rfl⟩

theorem primitiveArray_obeys : primitiveArray.Obeys id :=
  ⟨.inr (.inl ⟨rfl, .inr (by decide)⟩), jsonPrimitive_obeys⟩

theorem jsonValue_obeys : jsonValue.Obeys id :=
  ⟨rfl, objectArray_obeys, jsonPrimitive_obeys, primitiveArray_obeys, trivial⟩

theorem jsonValue_only : jsonValue.Only contentForms := by
  decide

/-- In a member that becomes an annotation the key is a term. -/
theorem annotationMember_obeys : annotationMember.Obeys id :=
  ⟨.inr ⟨rfl, by decide⟩, jsonValue_only, annotationTerm_obeys, jsonValue_obeys⟩

theorem propertyMember_obeys : propertyMember.Obeys id :=
  ⟨.inl ⟨rfl, by decide⟩, jsonValue_only, identifier_obeys, jsonValue_obeys⟩

theorem arrayOrObject_obeys : arrayOrObject.Obeys id :=
  ⟨.inr ⟨rfl, by decide⟩, objectArray_obeys, rfl, primitiveArray_obeys, trivial⟩

end Grammar

theorem Construct.body_obeys (construct : Construct) : construct.body.Obeys id := by
  cases construct with
  | object => exact ⟨.inl ⟨rfl, by decide⟩, Grammar.annotationMember_obeys, Grammar.propertyMember_obeys⟩
  | collection => exact Grammar.row_obeys (by decide) Grammar.geoLiteral_obeys _

namespace Grammar

theorem primitiveTable_obeys : ∀ alternative ∈ primitiveTable, alternative.rule.Obeys id := by
  simp only [primitiveTable, List.forall_mem_append, List.forall_mem_cons, List.forall_mem_map]
  exact ⟨⟨⟨null_obeys, typedLiteral_obeys _ _, typedLiteral_obeys _ _, typedLiteral_obeys _ _,
    typedLiteral_obeys _ _, typedLiteral_obeys _ _, typedLiteral_obeys _ _, double_obeys, single_obeys,
    signed_obeys _ _ _, byte_obeys, signed_obeys _ _ _, signed_obeys _ _ _, signed_obeys _ _ _,
    typedLiteral_obeys _ _, typedLiteral_obeys _ _, typedLiteral_obeys _ _, enumeration_obeys, List.forall_mem_nil _⟩,
    fun kind _ => spatial_obeys .geography kind⟩, fun kind _ => spatial_obeys .geometry kind⟩

theorem primitiveCatalogue_obeys : ∀ rule ∈ primitiveCatalogue, rule.Obeys id :=
  forall_primitiveCatalogue (Rule.Obeys id) identifier_obeys primitiveTable_obeys
    (Table.rule_of_forall (Rule.Obeys id) trivial And.intro primitiveTable_obeys)

theorem shapeCatalogue_obeys (kind : Shape) : ∀ rule ∈ shapeCatalogue kind, rule.Obeys id := by
  simp only [shapeCatalogue, List.forall_mem_cons]
  exact ⟨shape_obeys kind, withSrid_obeys kind, spatial_obeys .geography kind, spatial_obeys .geometry kind,
    List.forall_mem_nil _⟩

theorem geoCatalogue_obeys : ∀ rule ∈ geoCatalogue, rule.Obeys id := by
  simp only [geoCatalogue, List.forall_mem_append, List.forall_mem_cons, List.forall_mem_flatMap]
  exact ⟨⟨position_obeys, pointData_obeys, lineStringData_obeys, lineStringData_obeys, polygonData_obeys,
    srid_obeys, geoLiteral_obeys, List.forall_mem_nil _⟩, fun kind _ => shapeCatalogue_obeys kind⟩

theorem jsonCatalogue_obeys : ∀ rule ∈ jsonCatalogue, rule.Obeys id := by
  have primitive := jsonPrimitive_obeys
  simp only [jsonCatalogue, List.forall_mem_cons]
  exact ⟨primitive.1, primitive.2.1, primitive.2.2.1, primitive.2.2.2.1, primitive, annotationTerm_obeys,
    annotationMember_obeys, propertyMember_obeys, rfl, objectArray_obeys, primitiveArray_obeys,
    jsonValue_obeys, arrayOrObject_obeys, List.forall_mem_nil _⟩

theorem catalogue_obeys : ∀ rule ∈ catalogue, rule.Obeys id := by
  simp only [catalogue, List.forall_mem_append]
  exact ⟨⟨primitiveCatalogue_obeys, geoCatalogue_obeys⟩, jsonCatalogue_obeys⟩

end Grammar

namespace Rule

variable {source : Bytes} {levels : Nat} {become : Kind → Kind} {start stop : Place} {token : Token} {rule : Rule}

/-- Once its kind is the one that it ends up with, a token of a rule that obeys is in shape. -/
theorem shaped_of_parse (obeys : rule.Obeys become) (inside : start.In source)
    (read : rule.parse levels start = some (token, stop)) :
    (token.withKind (become token.kind)).Shaped source := by
  induction rule generalizing become token with
  | lexeme kind meaning pattern => exact lexeme_shaped obeys read
  | enclosed kind opening inner closing _ => exact enclosed_shaped obeys read
  | pair pairing opening first between second _ _ => exact pair_shaped obeys inside read
  | list kind opening item separator closing mayBeEmpty _ => exact list_shaped obeys inside read
  | enumeration typeName opening member separator closing _ => exact enumeration_shaped obeys inside read
  | withType type rule _ => exact withType_shaped obeys read
  | withKind kind rule ih =>
    obtain ⟨child, found, rfl⟩ := parse_withKind_iff.mp read
    have inner : rule.Obeys fun _ => become kind := obeys
    have shaped := ih inner found
    exact shaped
  | orElse first second ihFirst ihSecond =>
    rcases Option.or_eq_some_iff.mp read with read | ⟨_, read⟩
    · exact ihFirst obeys.1 read
    · exact ihSecond obeys.2 read
  | never => cases read
  | construct named =>
    cases levels with
    | zero => cases read
    | succ levels =>
      have body : named.body.parse levels start = some (token, stop) := read
      have kept : become token.kind = token.kind := by
        have kind : token.kind = named.kind := by
          cases named <;> exact congrArg (·.1) (list_form body)
        rw [kind]
        exact obeys
      have shaped : (token.withKind (id token.kind)).Shaped source := by
        have obeysBody := named.body_obeys
        cases named <;> exact list_shaped obeysBody inside body
      rw [kept]
      exact shaped

/-- The parts of a rule that obeys obey as they are: no rule changes the kinds of the tokens inside its own. -/
theorem hereditary_obeys : Hereditary (fun rule => ∃ become, rule.Obeys become) (Rule.Obeys id) where
  enclosed := fun ⟨_, obeys⟩ => obeys.2
  pair := fun {pairing} _ _ _ _ ⟨_, obeys⟩ => by
    cases pairing with
    | position | fullGeo => exact obeys.2.2.2
    | keyValue => exact obeys.2.2
  list := fun ⟨_, obeys⟩ => obeys.2
  enumeration := fun ⟨_, obeys⟩ => obeys.2.2
  withKind := fun ⟨_, obeys⟩ => ⟨_, obeys⟩
  orElse := fun ⟨_, obeys⟩ => ⟨⟨_, obeys.1⟩, ⟨_, obeys.2⟩⟩
  body named := ⟨id, named.body_obeys⟩

theorem shows_shaped (source : Bytes) (levels : Nat) (obeys : rule.Obeys id) :
    (rule.parse levels).Shows source (Token.Everywhere (Token.Shaped source)) :=
  everywhere_of_parts (fun _ obeys => hereditary_obeys.parts ⟨id, obeys⟩)
    (fun _ _ obeys _ _ _ inside read => shaped_of_parse obeys inside read) obeys

end Rule

namespace Grammar

/-- Every token that a rule reads is in shape, and so is every token inside it. -/
theorem tokens_shaped :
    ∀ rule ∈ catalogue, ∀ source offset depth token,
      (rule.attempt source offset depth).1.value? = some token →
        ∀ inner : Token, inner.Inside token → inner.Shaped source := by
  intro rule member source offset depth token found
  rw [Rule.value?_attempt (catalogue_steady rule member) (catalogue_fits rule member)] at found
  obtain ⟨⟨_, stop⟩, read, rfl⟩ := Option.map_eq_some_iff.mp found
  exact Rule.shows_shaped source _ (catalogue_obeys rule member) _ _ _ (.ofSource source offset) read

/-- A reference system before a list of points that is empty, as a list of several points may be. -/
theorem tokens_shaped_multiPoint :
    withSrid (shape .multiPoint) ∈ catalogue ∧
      ∃ token, ((withSrid (shape .multiPoint)).attempt (Bytes.ofString "SRID=4326;MultiPoint()") 0 0).1.value? =
          some token ∧
        token.children.map (·.form) = [(.literal, .srid), (.literal, .items)] ∧
        ∀ inner : Token, inner.Inside token → inner.Shaped (Bytes.ofString "SRID=4326;MultiPoint()") := by
  have member : withSrid (shape .multiPoint) ∈ catalogue := by
    simp [catalogue, geoCatalogue, shapeCatalogue, Shape.all]
  have forms : ((withSrid (shape .multiPoint)).attempt
      (Bytes.ofString "SRID=4326;MultiPoint()") 0 0).1.value?.map (fun token => token.children.map (·.form)) =
        some [(.literal, .srid), (.literal, .items)] := by
    decide +kernel
  obtain ⟨token, found, same⟩ := Option.map_eq_some_iff.mp forms
  exact ⟨member, token, found, same, tokens_shaped _ member _ 0 0 token found⟩

end Grammar

end ODataLiteral
