import ODataLiteral.Edm
import ODataLiteral.Proofs.Json.Abnf

/-! The grammar of spatial literals, rule by rule. How the data of a line or a ring opens is left open here, for the
grammar lets that parenthesis be encoded and the rules do not. Collections are counted, as objects are. -/
namespace ODataLiteral.Abnf

/-- `SIGN = "+" / "%2B" / "-"`. -/
def sign : Language UriChar := mark '+' + raw (· == '-'.toUInt8)

/-- `nanInfinity = 'NaN' / '-INF' / 'INF'`. -/
def nanInfinity : Language UriChar := word "NaN" + word "-INF" + word "INF"

/-- `[ SIGN ] 1*DIGIT "." 1*DIGIT`. -/
def fraction : Language UriChar :=
  optional sign * repeated 1 none digit * raw (· == '.'.toUInt8) * repeated 1 none digit

/-- `doubleValue = nanInfinity / [ SIGN ] 1*DIGIT "." 1*DIGIT [ "e" [ SIGN ] 1*DIGIT ]`. -/
def double : Language UriChar :=
  nanInfinity +
    fraction * optional (raw (· == 'e'.toUInt8) * optional sign * repeated 1 none digit)

/-- `positionLiteral = doubleValue SP doubleValue`. -/
def position : Language UriChar := double * raw Octet.isSpace * double

/-- `pointData = OPEN positionLiteral CLOSE`. -/
def pointData : Language UriChar := mark '(' * position * mark ')'

/-- `opens item *( COMMA item ) CLOSE`, or also without any item. -/
def list (opens item : Language UriChar) (mayBeEmpty : Bool) : Language UriChar :=
  opens * (if mayBeEmpty then optional (row (mark ',') item) else row (mark ',') item) * mark ')'

/-- A parenthesis in its plain form. -/
def rawOpen : Language UriChar := raw (· == '('.toUInt8)

variable (opens : Language UriChar)

/-- `lineStringData = OPEN positionLiteral *( COMMA positionLiteral ) CLOSE`, and the same for `ringLiteral`. -/
def lineStringData : Language UriChar := list opens position false

/-- `polygonData = OPEN ringLiteral *( COMMA ringLiteral ) CLOSE`. -/
def polygonData : Language UriChar := list opens (lineStringData opens) false

/-- The literal of a shape. Only lists whose keyword starts with `Multi` may be empty. -/
def shape (collection : Language UriChar) : Shape → Language UriChar
  | .collection => collection
  | .lineString => word "LineString" * lineStringData opens
  | .multiLineString => list (word "MultiLineString" * rawOpen) (lineStringData opens) true
  | .multiPoint => list (word "MultiPoint" * rawOpen) pointData true
  | .multiPolygon => list (word "MultiPolygon" * rawOpen) (polygonData opens) true
  | .point => word "Point" * pointData
  | .polygon => word "Polygon" * polygonData opens

/-- A literal of any of some shapes. -/
def anyShape (collection : Language UriChar) (shapes : List Shape) : Language UriChar :=
  { text : Text | ∃ kind ∈ shapes, text ∈ shape opens collection kind }

/-- `collectionLiteral = "Collection(" geoLiteral *( COMMA geoLiteral ) CLOSE`, with so many collections inside
one another at the most. -/
def collection : (depth : Nat) → Language UriChar
  | 0 => 0
  | depth + 1 => list (word "Collection" * rawOpen) (anyShape opens (collection depth) Shape.all) false

/-- `geoLiteral`, with so many collections inside one another at the most. -/
def geoLiteral (depth : Nat) : Language UriChar :=
  anyShape opens (collection opens depth) Shape.all

section Wider

variable {opens} {wider : Language UriChar}

theorem list_mono {item more : Language UriChar} {mayBeEmpty : Bool} (within : opens ≤ wider)
    (items : item ≤ more) : list opens item mayBeEmpty ≤ list wider more mayBeEmpty := by
  have rows : row (mark ',') item ≤ row (mark ',') more := by
    intro text member
    obtain ⟨first, parts, here, every, rfl⟩ := mem_row.mp member
    refine mem_row.mpr ⟨first, parts, items here, fun part inside => ?_, rfl⟩
    obtain ⟨gap, separates, next, nextHere, rfl⟩ := every part inside
    exact Language.append_mem_mul separates (items nextHere)
  rintro _ ⟨_, ⟨before, opened, middle, filled, rfl⟩, after, closed, rfl⟩
  refine Language.append_mem_mul (Language.append_mem_mul (within opened) ?_) closed
  cases mayBeEmpty with
  | false => exact rows filled
  | true => exact mem_optional.mpr ((mem_optional.mp filled).imp_right fun some => rows some)

theorem shape_mono {inner more : Language UriChar} (within : opens ≤ wider) (collections : inner ≤ more)
    (kind : Shape) : shape opens inner kind ≤ shape wider more kind := by
  have lines : lineStringData opens ≤ lineStringData wider := list_mono within le_rfl
  have polygons : polygonData opens ≤ polygonData wider := list_mono within lines
  have named {keyword : String} {data other : Language UriChar} (widens : data ≤ other) :
      word keyword * data ≤ word keyword * other := by
    rintro _ ⟨front, spelled, rest, drawn, rfl⟩
    exact Language.append_mem_mul spelled (widens drawn)
  cases kind with
  | collection => exact collections
  | lineString => exact named lines
  | multiLineString => exact list_mono le_rfl lines
  | multiPoint => exact le_rfl
  | multiPolygon => exact list_mono le_rfl polygons
  | point => exact le_rfl
  | polygon => exact named polygons

theorem anyShape_mono {inner more : Language UriChar} (within : opens ≤ wider) (collections : inner ≤ more)
    (shapes : List Shape) : anyShape opens inner shapes ≤ anyShape wider more shapes := by
  rintro text ⟨kind, listed, drawn⟩
  exact ⟨kind, listed, shape_mono within collections kind drawn⟩

theorem geoLiteral_mono (within : opens ≤ wider) (depth : Nat) :
    geoLiteral opens depth ≤ geoLiteral wider depth := by
  have collections (depth : Nat) : collection opens depth ≤ collection wider depth := by
    induction depth with
    | zero => exact le_rfl
    | succ depth ih => exact list_mono le_rfl (anyShape_mono within ih _)
  exact anyShape_mono within (collections depth) _

end Wider

end ODataLiteral.Abnf
