import ODataLiteral.Proofs.Geo.Abnf
import ODataLiteral.Proofs.Json.Terminals
import ODataLiteral.Proofs.Tiles

/-! What the tokens of spatial literals show: their octets, part by part. A token that shows all that spells a text of
the grammar, in which lists open in the plain form only. -/
namespace ODataLiteral

open Abnf (Derives)

namespace Token

variable (source : Bytes)

def IsDouble (token : Token) : Prop :=
  token.kind = .literal ∧ token.value = .typed .double ∧ Derives Abnf.double (token.octets source)

def IsPosition (token : Token) : Prop :=
  token.kind = .literal ∧ ∃ longitude latitude, token.value = .position longitude latitude ∧
    token.Tiled source ⟨1, Abnf.raw Octet.isSpace, 1⟩ ∧
    IsDouble source longitude ∧ IsDouble source latitude

/-- A token around another one, with delimiters on either side. -/
def IsNested (before after : Language UriChar) (inner : Token → Prop) (token : Token) : Prop :=
  token.kind = .literal ∧ ∃ child, token.value = .nested child ∧
    token.Tiled source ⟨before, 0, after⟩ ∧ inner child

def IsPointData : Token → Prop :=
  IsNested source (Abnf.mark '(') (Abnf.mark ')') (IsPosition source)

/-- A token of items between parentheses, the first of which is plain. -/
def IsGeoList (keyword : Language UriChar) (item : Token → Prop) (mayBeEmpty : Bool) (token : Token) :
    Prop :=
  token.kind = .literal ∧ ∃ tokens, token.value = .items tokens ∧
    token.Tiled source ⟨keyword * Abnf.rawOpen, Abnf.mark ',', Abnf.mark ')'⟩ ∧
    (tokens = [] → mayBeEmpty = true) ∧ ∀ child ∈ tokens, item child

def IsLineStringData : Token → Prop :=
  IsGeoList source 1 (IsPosition source) false

def IsPolygonData : Token → Prop :=
  IsGeoList source 1 (IsLineStringData source) false

def IsShape (collection : Token → Prop) : Shape → Token → Prop
  | .collection => collection
  | .lineString => IsNested source (Abnf.word "LineString") 1 (IsLineStringData source)
  | .multiLineString => IsGeoList source (Abnf.word "MultiLineString") (IsLineStringData source) true
  | .multiPoint => IsGeoList source (Abnf.word "MultiPoint") (IsPointData source) true
  | .multiPolygon => IsGeoList source (Abnf.word "MultiPolygon") (IsPolygonData source) true
  | .point => IsNested source (Abnf.word "Point") 1 (IsPointData source)
  | .polygon => IsNested source (Abnf.word "Polygon") 1 (IsPolygonData source)

/-- A collection with so many collections inside one another at the most, itself included. -/
def IsCollection : (depth : Nat) → Token → Prop
  | 0, _ => False
  | depth + 1, token =>
    IsGeoList source (Abnf.word "Collection")
      (fun child => ∃ kind, IsShape source (IsCollection depth) kind child) false token

def IsGeoLiteral (depth : Nat) (token : Token) : Prop :=
  ∃ kind, IsShape source (IsCollection source depth) kind token

end Token

namespace Grammar

open Pattern

/-- The rule that tries some shapes in order. -/
def firstShape (shapes : List Shape) : Rule :=
  shapes.foldr (fun kind rest => .orElse (shape kind) rest) .never

/-- The order in which shapes are tried. -/
def shapeOrder : List Shape :=
  [.collection, .lineString, .multiPoint, .multiLineString, .multiPolygon, .point, .polygon]

theorem geoLiteral_eq : geoLiteral = firstShape shapeOrder := rfl

section Language

theorem language_sign : Pattern.sign.language = Abnf.sign := by
  rw [Abnf.sign, add_comm, ← language_delimiter]
  rfl

theorem language_fraction : Pattern.fraction.language = Abnf.fraction := by
  rw [Abnf.fraction, ← language_sign]
  rfl

theorem language_double : Pattern.double.language = Abnf.double := by
  rw [Abnf.double, Abnf.nanInfinity, ← language_fraction, ← language_sign, add_assoc (Abnf.word _),
    ← language_word, ← language_word, ← language_word]
  rfl

end Language

section Shows

variable {source : Bytes} {levels : Nat} {look inner : Token → Prop}

theorem double_shows (source : Bytes) (levels : Nat) :
    (double.parse levels).Shows source (Token.IsDouble source) := by
  refine (Rule.lexeme_shows (by decide) (by decide)).mono ?_
  rintro token ⟨kind, derived, text, known⟩
  rw [language_double] at derived
  exact ⟨kind, (Option.some.inj known).symm, derived⟩

theorem position_shows (source : Bytes) (levels : Nat) :
    (position.parse levels).Shows source (Token.IsPosition source) := by
  have double := double_shows source levels
  refine (Rule.pair_shows double double (by decide) (by decide)).mono ?_
  rintro token ⟨kind, longitude, latitude, value, tiled, left, right⟩
  exact ⟨kind, longitude, latitude, value, tiled, left, right⟩

theorem pointData_shows (source : Bytes) (levels : Nat) :
    (pointData.parse levels).Shows source (Token.IsPointData source) := by
  rw [Token.IsPointData, ← language_delimiter, ← language_delimiter]
  exact Rule.enclosed_shows (position_shows source levels) (by decide) (by decide)

theorem geoList_shows {item : Rule} (shows : (item.parse levels).Shows source look) {keyword : Text}
    {mayBeEmpty : Bool} (steady : (geoList keyword item mayBeEmpty).steady = true)
    (clean : (geoList keyword item mayBeEmpty).clean = true) :
    ((geoList keyword item mayBeEmpty).parse levels).Shows source
      (Token.IsGeoList source (text keyword).language look mayBeEmpty) := by
  have comma : comma.language = Abnf.mark ',' := language_delimiter ','
  have close : closeParen.language = Abnf.mark ')' := language_delimiter ')'
  have shown := Rule.list_shows shows steady clean
  rw [comma, close] at shown
  exact shown

theorem lineStringData_shows (source : Bytes) (levels : Nat) :
    (lineStringData.parse levels).Shows source (Token.IsLineStringData source) :=
  geoList_shows (position_shows source levels) (by decide) (by decide)

theorem polygonData_shows (source : Bytes) (levels : Nat) :
    (polygonData.parse levels).Shows source (Token.IsPolygonData source) :=
  geoList_shows (lineStringData_shows source levels) (by decide) (by decide)

theorem shapeWith_shows {data : Rule} (shows : (data.parse levels).Shows source inner) {kind : Shape}
    {keyword : String} (named : kind.name = keyword) (steady : (shapeWith kind data).steady = true)
    (clean : (shapeWith kind data).clean = true) :
    ((shapeWith kind data).parse levels).Shows source
      (Token.IsNested source (Abnf.word keyword) 1 inner) := by
  rw [← language_word, ← named]
  exact Rule.enclosed_shows shows steady clean

theorem shapesOf_shows {data : Rule} (shows : (data.parse levels).Shows source inner) {kind : Shape}
    {keyword : String} (named : kind.name = keyword) (steady : (shapesOf kind data).steady = true)
    (clean : (shapesOf kind data).clean = true) :
    ((shapesOf kind data).parse levels).Shows source
      (Token.IsGeoList source (Abnf.word keyword) inner true) := by
  rw [← language_word, ← named]
  exact geoList_shows shows steady clean

theorem shape_shows (collections : ((shape .collection).parse levels).Shows source inner)
    (kind : Shape) :
    ((shape kind).parse levels).Shows source (Token.IsShape source inner kind) := by
  have lines := lineStringData_shows source levels
  have polygons := polygonData_shows source levels
  have points := pointData_shows source levels
  cases kind with
  | collection => exact collections
  | lineString => exact shapeWith_shows lines rfl (by decide) (by decide)
  | multiLineString => exact shapesOf_shows lines rfl (by decide) (by decide)
  | multiPoint => exact shapesOf_shows points rfl (by decide) (by decide)
  | multiPolygon => exact shapesOf_shows polygons rfl (by decide) (by decide)
  | point => exact shapeWith_shows points rfl (by decide) (by decide)
  | polygon => exact shapeWith_shows polygons rfl (by decide) (by decide)

theorem firstShape_shows {shapes : List Shape}
    (shows : ∀ kind ∈ shapes, ((shape kind).parse levels).Shows source inner) :
    ((firstShape shapes).parse levels).Shows source inner := by
  induction shapes with
  | nil =>
    intro start token stop inside read
    cases read
  | cons kind shapes ih =>
    obtain ⟨first, rest⟩ := List.forall_mem_cons.mp shows
    exact first.or (ih rest)

theorem anyShape_shows
    (collections : ((shape .collection).parse levels).Shows source inner) :
    (geoLiteral.parse levels).Shows source fun token => ∃ kind, Token.IsShape source inner kind token := by
  rw [geoLiteral_eq]
  exact firstShape_shows fun kind _ =>
    (shape_shows collections kind).mono fun _ here => Exists.intro kind here

theorem collection_shows (source : Bytes) (levels : Nat) :
    ((shape .collection).parse levels).Shows source (Token.IsCollection source levels) := by
  -- Every collection takes one of the levels, so its items have one less.
  induction levels with
  | zero =>
    intro start token stop inside read
    cases read
  | succ levels ih =>
    have shown : (collection.parse levels).Shows source _ :=
      geoList_shows (anyShape_shows ih) (by decide) (by decide)
    rw [← word, language_word] at shown
    exact shown

theorem geoLiteral_shows (source : Bytes) (levels : Nat) :
    (geoLiteral.parse levels).Shows source (Token.IsGeoLiteral source levels) :=
  anyShape_shows (collection_shows source levels)

end Shows

end Grammar

namespace Token

variable {source : Bytes} {token : Token} {item inner : Token → Prop} {grammar : Language UriChar}

theorem IsPosition.spells (shown : token.IsPosition source) :
    Derives Abnf.position (token.octets source) := by
  obtain ⟨_, longitude, latitude, value, tiled, left, right⟩ := shown
  have both : token.children = [longitude, latitude] := by rw [children, value]; rfl
  have derived := tiled.spells_two both left.2.2 right.2.2
  rwa [one_mul, mul_one] at derived

theorem IsNested.spells {before after : Language UriChar} (shown : token.IsNested source before after inner)
    (spelled : ∀ child, inner child → Derives grammar (child.octets source)) :
    Derives (before * grammar * after) (token.octets source) := by
  obtain ⟨_, child, value, tiled, below⟩ := shown
  have only : token.children = [child] := by rw [children, value]; rfl
  exact tiled.spells_one only (spelled child below)

theorem IsPointData.spells (shown : token.IsPointData source) :
    Derives Abnf.pointData (token.octets source) :=
  IsNested.spells shown fun _ => IsPosition.spells

theorem IsGeoList.spells {keyword : Language UriChar} {mayBeEmpty : Bool}
    (shown : token.IsGeoList source keyword item mayBeEmpty)
    (spelled : ∀ child, item child → Derives grammar (child.octets source)) :
    Derives (Abnf.list (keyword * Abnf.rawOpen) grammar mayBeEmpty) (token.octets source) := by
  obtain ⟨_, tokens, value, tiled, empty, below⟩ := shown
  have all : token.children = tokens := by rw [children, value]; rfl
  have every : ∀ child ∈ token.children, Derives grammar (child.octets source) := by
    rw [all]
    exact fun child member => spelled child (below child member)
  rcases tiled.spells every with ⟨none, derived⟩ | derived
  · obtain rfl := empty (all.symm.trans none)
    refine derived.mono ?_
    rintro _ ⟨opening, opened, closing, closed, rfl⟩
    have nothing : [] ∈ Abnf.optional (Abnf.row (Abnf.mark ',') grammar) := Abnf.mem_optional.mpr (.inl rfl)
    have whole := Language.append_mem_mul (Language.append_mem_mul opened nothing) closed
    rwa [List.append_nil] at whole
  · refine derived.mono ?_
    rintro _ ⟨_, ⟨opening, opened, middle, filled, rfl⟩, closing, closed, rfl⟩
    refine Language.append_mem_mul (Language.append_mem_mul opened ?_) closed
    cases mayBeEmpty with
    | false => exact filled
    | true => exact Abnf.mem_optional.mpr (.inr filled)

theorem IsLineStringData.spells (shown : token.IsLineStringData source) :
    Derives (Abnf.lineStringData Abnf.rawOpen) (token.octets source) := by
  have derived := IsGeoList.spells shown fun _ => IsPosition.spells
  rwa [one_mul] at derived

theorem IsPolygonData.spells (shown : token.IsPolygonData source) :
    Derives (Abnf.polygonData Abnf.rawOpen) (token.octets source) := by
  have derived := IsGeoList.spells shown fun _ => IsLineStringData.spells
  rwa [one_mul] at derived

theorem IsShape.spells {kind : Shape} (shown : token.IsShape source inner kind)
    (spelled : ∀ child, inner child → Derives grammar (child.octets source)) :
    Derives (Abnf.shape Abnf.rawOpen grammar kind) (token.octets source) := by
  have named {keyword : String} {data : Token → Prop} {content : Language UriChar}
      (shown : token.IsNested source (Abnf.word keyword) 1 data)
      (spelled : ∀ child, data child → Derives content (child.octets source)) :
      Derives (Abnf.word keyword * content) (token.octets source) := by
    have derived := IsNested.spells shown spelled
    rwa [mul_one] at derived
  cases kind with
  | collection => exact spelled token shown
  | lineString => exact named shown fun _ => IsLineStringData.spells
  | multiLineString => exact IsGeoList.spells shown fun _ => IsLineStringData.spells
  | multiPoint => exact IsGeoList.spells shown fun _ => IsPointData.spells
  | multiPolygon => exact IsGeoList.spells shown fun _ => IsPolygonData.spells
  | point => exact named shown fun _ => IsPointData.spells
  | polygon => exact named shown fun _ => IsPolygonData.spells

theorem IsCollection.spells {depth : Nat} (shown : token.IsCollection source depth) :
    Derives (Abnf.collection Abnf.rawOpen depth) (token.octets source) := by
  induction depth generalizing token with
  | zero => exact shown.elim
  | succ depth ih =>
    refine IsGeoList.spells shown ?_
    rintro child ⟨kind, drawn⟩
    refine (IsShape.spells drawn fun _ => ih).mono fun text member => ⟨kind, ?_, member⟩
    cases kind <;> decide

theorem IsGeoLiteral.spells {depth : Nat} (shown : token.IsGeoLiteral source depth) :
    Derives (Abnf.geoLiteral Abnf.rawOpen depth) (token.octets source) := by
  obtain ⟨kind, drawn⟩ := shown
  refine (IsShape.spells drawn fun _ => IsCollection.spells).mono fun text member => ⟨kind, ?_, member⟩
  cases kind <;> decide

end Token

end ODataLiteral
