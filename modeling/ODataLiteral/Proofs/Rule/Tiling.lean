import ODataLiteral.Proofs.Json.Terminals
import ODataLiteral.Proofs.Grammar.Fits
import ODataLiteral.Proofs.Rule.Reading
import ODataLiteral.Proofs.Tiles

/-! The tokens of every rule are tiled, at every depth of the tree: what is no child is a delimiter of the rule that
the token is of. -/
namespace ODataLiteral

/-- Values that hold neither a token nor a list of tokens. -/
def Value.bare : Value → Bool
  | .null | .typed _ | .srid _ | .identifier _ | .json _ => true
  | .position _ _ | .nested _ | .items _ | .fullGeo _ _ | .enumeration _ _ | .keyValue _ _ => false

theorem Meaning.bare_of_value? {meaning : Meaning} {text : Text} {value : Value}
    (known : meaning.value? text = some value) : value.bare = true := by
  have kept {text : Option String} {make : String → Value} (bare : ∀ one, (make one).bare = true)
      (same : text.map make = some value) : value.bare = true := by
    obtain ⟨one, _, rfl⟩ := Option.map_eq_some_iff.mp same
    exact bare one
  cases meaning with
  | name | term | jsonString => exact kept (fun _ => rfl) known
  | integer type range =>
    simp only [Meaning.value?] at known
    split at known <;> cases known
    rfl
  | null | typed _ | srid | jsonNumber | jsonBoolean _ | jsonNull =>
    cases known
    rfl

namespace Rule

/-- What a rule has beside the tokens of its parts. Other rules have no delimiters of their own. -/
def delimiters : Rule → Delimiters
  | enclosed _ opening _ closing => ⟨opening.language, 0, closing.language⟩
  | pair _ opening _ between _ => ⟨opening.language, between.language, 1⟩
  | list _ opening _ separator closing _ => ⟨opening.language, separator.language, closing.language⟩
  | enumeration typeName opening _ separator closing =>
    ⟨typeName.language * opening.language, separator.language, closing.language⟩
  | lexeme _ _ _ | withType _ _ | withKind _ _ | orElse _ _ | never | construct _ => ⟨0, 0, 0⟩

/-- A token of a rule whose octets are all accounted for, and so are those of the tokens in it. -/
inductive Tree (source : Bytes) : Rule → Token → Prop
  | lexeme {kind : Kind} {meaning : Meaning} {pattern : Pattern} {token : Token}
      (bare : token.value.bare = true) : Tree source (lexeme kind meaning pattern) token
  | enclosed {kind : Kind} {opening closing : Pattern} {inner : Rule} {token child : Token}
      (tiled : token.Tiled source (enclosed kind opening inner closing).delimiters)
      (value : token.value = .nested child) (below : Tree source inner child) :
      Tree source (enclosed kind opening inner closing) token
  | pair {pairing : Pairing} {opening between : Pattern} {first second : Rule} {token one two : Token}
      (tiled : token.Tiled source (pair pairing opening first between second).delimiters)
      (value : token.value = pairing.value one two) (left : Tree source first one)
      (right : Tree source second two) :
      Tree source (pair pairing opening first between second) token
  | list {kind : Kind} {opening separator closing : Pattern} {item : Rule} {mayBeEmpty : Bool}
      {token : Token} {tokens : List Token}
      (tiled : token.Tiled source (list kind opening item separator closing mayBeEmpty).delimiters)
      (value : token.value = .items tokens) (below : ∀ child ∈ tokens, Tree source item child) :
      Tree source (list kind opening item separator closing mayBeEmpty) token
  | enumeration {typeName opening separator closing : Pattern} {member : Rule} {token : Token}
      {name : String} {members : List Token}
      (tiled : token.Tiled source (enumeration typeName opening member separator closing).delimiters)
      (value : token.value = .enumeration name members)
      (below : ∀ child ∈ members, Tree source member child) :
      Tree source (enumeration typeName opening member separator closing) token
  | withType {type : EdmType} {rule : Rule} {token : Token} (bare : token.value.bare = true) :
      Tree source (withType type rule) token
  | withKind {kind : Kind} {rule : Rule} {token : Token} (below : Tree source rule token) :
      Tree source (withKind kind rule) (token.withKind kind)
  | first {one two : Rule} {token : Token} (below : Tree source one token) :
      Tree source (orElse one two) token
  | second {one two : Rule} {token : Token} (below : Tree source two token) :
      Tree source (orElse one two) token
  | construct {named : Construct} {token : Token} (below : Tree source named.body token) :
      Tree source (construct named) token

/-- What a token has if the tokens in it have it, by the rule that the token is of. -/
structure Stepwise (source : Bytes) (shown : Rule → Token → Prop) : Prop where
  lexeme : ∀ {levels kind meaning pattern}, pattern.steady = true → pattern.clean = true →
    ((lexeme kind meaning pattern).parse levels).Shows source (shown (lexeme kind meaning pattern))
  enclosed : ∀ {kind opening inner closing} {token child : Token},
    token.Tiled source (enclosed kind opening inner closing).delimiters → token.value = .nested child →
      shown inner child → shown (enclosed kind opening inner closing) token
  pair : ∀ {pairing opening first between second} {token one two : Token},
    token.Tiled source (pair pairing opening first between second).delimiters →
      token.value = pairing.value one two → shown first one → shown second two →
        shown (pair pairing opening first between second) token
  list : ∀ {kind opening item separator closing mayBeEmpty} {token : Token} {tokens : List Token},
    token.Tiled source (list kind opening item separator closing mayBeEmpty).delimiters →
      token.value = .items tokens → (∀ child ∈ tokens, shown item child) →
        shown (list kind opening item separator closing mayBeEmpty) token
  enumeration : ∀ {typeName opening member separator closing} {token : Token} {name : String}
    {members : List Token},
    token.Tiled source (enumeration typeName opening member separator closing).delimiters →
      token.value = .enumeration name members → (∀ child ∈ members, shown member child) →
        shown (enumeration typeName opening member separator closing) token
  withType : ∀ {type rule token}, shown rule token → shown (withType type rule) (token.withType type)
  withKind : ∀ {kind rule token}, shown rule token → shown (withKind kind rule) (token.withKind kind)
  first : ∀ {one two token}, shown one token → shown (orElse one two) token
  second : ∀ {one two token}, shown two token → shown (orElse one two) token
  construct : ∀ {named token}, shown named.body token → shown (construct named) token

section Stepwise

variable {source : Bytes} {levels : Nat} {shown : Rule → Token → Prop} {rule : Rule}

theorem Stepwise.shows_of_constructs (steps : Stepwise source shown)
    (constructs : ∀ named, ((Rule.construct named).parse levels).Shows source (shown (.construct named)))
    (steady : rule.steady = true) (clean : rule.clean = true) :
    (rule.parse levels).Shows source (shown rule) := by
  induction rule with
  | lexeme kind meaning pattern =>
    simp only [Rule.steady, Bool.and_eq_true] at steady
    exact steps.lexeme steady.1 clean
  | enclosed kind opening inner closing ih =>
    have parts := And.intro steady clean
    simp only [Rule.steady, Rule.clean, Bool.and_eq_true] at parts
    refine (enclosed_shows (ih parts.1.1.2 parts.2.1.2) steady clean).mono ?_
    rintro token ⟨_, child, value, tiled, below⟩
    exact steps.enclosed tiled value below
  | pair pairing opening first between second ihFirst ihSecond =>
    have parts := And.intro steady clean
    simp only [Rule.steady, Rule.clean, Bool.and_eq_true] at parts
    refine (pair_shows (ihFirst parts.1.1.1.2 parts.2.1.1.2) (ihSecond parts.1.2 parts.2.2) steady
      clean).mono ?_
    rintro token ⟨_, one, two, value, tiled, left, right⟩
    exact steps.pair tiled value left right
  | list kind opening item separator closing mayBeEmpty ih =>
    have inside : item.clean = true := by
      simp only [Rule.clean, Bool.and_eq_true] at clean
      exact clean.1.1.2
    refine (list_shows (ih (steadyItems_of_list steady).inside inside) steady clean).mono ?_
    rintro token ⟨_, tokens, value, tiled, _, below⟩
    exact steps.list tiled value below
  | enumeration typeName opening member separator closing ih =>
    have inside : member.clean = true := by
      simp only [Rule.clean, Bool.and_eq_true] at clean
      exact clean.1.1.2
    refine (enumeration_shows (ih (steadyItems_of_enumeration steady).2.inside inside) steady clean).mono ?_
    rintro token ⟨_, name, members, value, tiled, below⟩
    exact steps.enumeration tiled value below
  | withType type rule ih =>
    intro start token stop inside read
    obtain ⟨child, found, rfl⟩ := parse_withType_iff.mp read
    exact steps.withType (ih steady clean _ _ _ inside found)
  | withKind kind rule ih =>
    intro start token stop inside read
    obtain ⟨child, found, rfl⟩ := parse_withKind_iff.mp read
    exact steps.withKind (ih steady clean _ _ _ inside found)
  | orElse one two ihOne ihTwo =>
    simp only [Rule.steady, Rule.clean, Bool.and_eq_true] at steady clean
    exact Parser.Shows.or ((ihOne steady.1 clean.1).mono fun _ => steps.first)
      ((ihTwo steady.2 clean.2).mono fun _ => steps.second)
  | never =>
    intro start token stop inside read
    cases read
  | construct named => exact constructs named

/-- Constructs are opened one inside the other, each with a level less. -/
theorem Stepwise.shows (steps : Stepwise source shown) (levels : Nat) (steady : rule.steady = true)
    (clean : rule.clean = true) : (rule.parse levels).Shows source (shown rule) := by
  induction levels generalizing rule with
  | zero => exact steps.shows_of_constructs (fun _ _ _ _ _ read => by cases read) steady clean
  | succ levels ih =>
    refine steps.shows_of_constructs (fun named => ?_) steady clean
    exact (ih named.steady_body named.clean_body).mono fun _ => steps.construct

end Stepwise

theorem stepwise_tree (source : Bytes) : Stepwise source (Tree source) where
  lexeme _ _ := by
    rintro start token stop inside read
    obtain ⟨_, _, _, known, rfl⟩ := Parser.lexeme_iff.mp read
    exact .lexeme (Meaning.bare_of_value? known)
  enclosed := .enclosed
  pair := .pair
  list := .list
  enumeration := .enumeration
  withType _ := .withType rfl
  withKind := .withKind
  first := .first
  second := .second
  construct := .construct

/-- A property that is only to be shown where a lexeme is read. A token that is made of others has it from them. -/
structure Inherited (source : Bytes) (shown : Token → Prop) : Prop where
  lexeme : ∀ levels kind meaning pattern, pattern.steady = true → pattern.clean = true →
    ((Rule.lexeme kind meaning pattern).parse levels).Shows source shown
  composed : ∀ (token : Token) (delimiters : Delimiters), token.value.bare = false →
    token.Tiled source delimiters → (∀ child ∈ token.children, shown child) → shown token
  withType : ∀ type token, shown token → shown (token.withType type)
  withKind : ∀ kind token, shown token → shown (token.withKind kind)

theorem Inherited.stepwise {source : Bytes} {shown : Token → Prop} (inherited : Inherited source shown) :
    Stepwise source fun _ => shown where
  lexeme steady clean := inherited.lexeme _ _ _ _ steady clean
  enclosed tiled value below := by
    apply inherited.composed _ _ (by rw [value]; rfl) tiled
    rw [Token.children, value]
    exact List.forall_mem_singleton.mpr below
  pair := by
    intro pairing _ _ _ _ _ _ _ tiled value left right
    apply inherited.composed _ _ (by rw [value]; cases pairing <;> rfl) tiled
    rw [Token.children, value, Pairing.children_value]
    exact List.forall_mem_cons.mpr ⟨left, List.forall_mem_singleton.mpr right⟩
  list tiled value below := by
    apply inherited.composed _ _ (by rw [value]; rfl) tiled
    rw [Token.children, value]
    exact below
  enumeration tiled value below := by
    apply inherited.composed _ _ (by rw [value]; rfl) tiled
    rw [Token.children, value]
    exact below
  withType := inherited.withType _ _
  withKind := inherited.withKind _ _
  first := id
  second := id
  construct := id

end Rule

namespace Grammar

open Pattern

/-- What the grammar puts beside the parts of a rule. -/
def delimiterTable : List (Rule × Delimiters) :=
  let list (keyword : Language UriChar) : Delimiters :=
    ⟨keyword * Abnf.raw (· == '('.toUInt8), Abnf.mark ',', Abnf.mark ')'⟩
  [(position, ⟨1, Abnf.raw Octet.isSpace, 1⟩),
   (pointData, ⟨Abnf.mark '(', 0, Abnf.mark ')'⟩),
   (lineStringData, list 1),
   (ring, list 1),
   (polygonData, list 1),
   (shape .lineString, ⟨Abnf.word "LineString", 0, 1⟩),
   (shape .point, ⟨Abnf.word "Point", 0, 1⟩),
   (shape .polygon, ⟨Abnf.word "Polygon", 0, 1⟩),
   (shape .multiLineString, list (Abnf.word "MultiLineString")),
   (shape .multiPoint, list (Abnf.word "MultiPoint")),
   (shape .multiPolygon, list (Abnf.word "MultiPolygon")),
   (collection, list (Abnf.word "Collection")),
   (enumeration, ⟨Abnf.qualifiedName * Abnf.mark '\'', Abnf.mark ',', Abnf.mark '\''⟩),
   (objectMembers, ⟨Abnf.opening '{', Abnf.valueSeparator, Abnf.closing '}'⟩),
   (objectArray, ⟨Abnf.opening '[', Abnf.valueSeparator, Abnf.closing ']'⟩),
   (primitiveArray, ⟨Abnf.opening '[', Abnf.valueSeparator, Abnf.closing ']'⟩),
   (member annotationTerm jsonValue,
     ⟨Abnf.quotationMark, Abnf.quotationMark * Abnf.nameSeparator, 1⟩),
   (member identifier jsonValue,
     ⟨Abnf.quotationMark, Abnf.quotationMark * Abnf.nameSeparator, 1⟩),
   (arrayOrObject, ⟨1, 0, 1⟩)] ++
  Shape.all.map fun kind => (withSrid (shape kind), ⟨1, 1, 1⟩)

theorem delimiters_geoList (keyword : String) (item : Rule) (mayBeEmpty : Bool) :
    (geoList (Text.ofWord keyword) item mayBeEmpty).delimiters =
      ⟨Abnf.word keyword * Abnf.raw (· == '('.toUInt8), Abnf.mark ',', Abnf.mark ')'⟩ := by
  rw [← language_word, ← language_delimiter, ← language_delimiter]
  rfl

theorem delimiters_array (item : Rule) : (array item).delimiters =
    ⟨Abnf.opening '[', Abnf.valueSeparator, Abnf.closing ']'⟩ := by
  rw [← language_openingBracket, ← language_valueSeparator, ← language_closingBracket]
  rfl

theorem delimiters_member (key value : Rule) : (member key value).delimiters =
    ⟨Abnf.quotationMark, Abnf.quotationMark * Abnf.nameSeparator, 1⟩ := by
  rw [← language_doubleQuote, ← language_nameSeparator]
  rfl

theorem delimiters_of_table : ∀ entry ∈ delimiterTable, entry.1.delimiters = entry.2 := by
  have data (item : Rule) : (geoList [] item false).delimiters =
      ⟨1 * Abnf.raw (· == '('.toUInt8), Abnf.mark ',', Abnf.mark ')'⟩ := by
    rw [← language_delimiter, ← language_delimiter]
    rfl
  have keyword (kind : Shape) (inner : Rule) :
      (shapeWith kind inner).delimiters = ⟨Abnf.word kind.name, 0, 1⟩ := by
    rw [← language_word]
    rfl
  simp only [delimiterTable, List.forall_mem_append, List.forall_mem_cons, List.forall_mem_map]
  refine ⟨⟨rfl, ?_, data _, data _, data _, keyword _ _, keyword _ _, keyword _ _,
    delimiters_geoList _ _ _, delimiters_geoList _ _ _, delimiters_geoList _ _ _,
    delimiters_geoList _ _ _, ?_, ?_, delimiters_array _, delimiters_array _, delimiters_member _ _,
    delimiters_member _ _, rfl, nofun⟩, fun kind _ => rfl⟩
  · rw [← language_delimiter, ← language_delimiter]
    rfl
  · rw [← language_qualifiedName, ← language_delimiter, ← language_delimiter]
    rfl
  · rw [← language_openingBracket, ← language_valueSeparator, ← language_closingBracket]
    rfl

theorem catalogue_clean : ∀ rule ∈ catalogue, rule.clean = true := by
  decide

/-- Whatever a rule reads, its octets are those of the tokens in it and of the delimiters that the grammar names. -/
theorem tokens_tiled :
    (∀ entry ∈ delimiterTable, entry.1.delimiters = entry.2) ∧
      ∀ rule ∈ catalogue, ∀ source offset token, rule.tokenAt? source offset = some token →
        rule.Tree source token := by
  refine ⟨delimiters_of_table, fun rule member source offset token found => ?_⟩
  have steady := catalogue_steady rule member
  obtain ⟨stop, read⟩ := (Rule.tokenAt?_iff steady (catalogue_fits rule member)).mp found
  exact (Rule.stepwise_tree source).shows maxDepth steady (catalogue_clean rule member) _ _ _
    (.ofSource source offset) read

/-- The two points of a list, the second one between encoded parentheses. -/
theorem tokens_tiled_multiPoint :
    shape .multiPoint ∈ catalogue ∧ ∃ token, (shape .multiPoint).tokenAt?
        (Bytes.ofString "MultiPoint((1.0 2.0),%281.5 2.5%29)") 0 = some token ∧
      token.children.map (·.span) = [⟨11, 20⟩, ⟨21, 34⟩] ∧
      (shape .multiPoint).Tree (Bytes.ofString "MultiPoint((1.0 2.0),%281.5 2.5%29)") token := by
  have member : shape .multiPoint ∈ catalogue := by
    simp [catalogue, geoCatalogue, shapeCatalogue, Shape.all]
  have spans : ((shape .multiPoint).tokenAt? (Bytes.ofString "MultiPoint((1.0 2.0),%281.5 2.5%29)") 0).map
      (fun token => token.children.map (·.span)) = some [⟨11, 20⟩, ⟨21, 34⟩] := by
    decide +kernel
  obtain ⟨token, found, same⟩ := Option.map_eq_some_iff.mp spans
  exact ⟨member, token, found, same, tokens_tiled.2 _ member _ _ _ found⟩

end Grammar

end ODataLiteral
