import ODataLiteral.Rule

/-! Spatial literals. The data of a point may open with an encoded parenthesis; a list of items may not.
Only the lists of the keywords that start with `Multi` may be empty. -/
namespace ODataLiteral.Grammar

open Pattern

def double : Rule := .lexeme .literal (.typed .double) Pattern.double

/-- A longitude and a latitude with one plain space between them. -/
def position : Rule := .pair .position .empty double (octet Octet.isSpace) double

def pointData : Rule := .enclosed .literal openParen position closeParen

/-- A keyword, a parenthesis, and items separated by commas. -/
def geoList (keyword : Text) (item : Rule) (mayBeEmpty : Bool) : Rule :=
  .list .literal (text keyword ++ plain '(') item comma closeParen mayBeEmpty

def lineStringData : Rule := geoList [] position false

def ring : Rule := geoList [] position false

def polygonData : Rule := geoList [] ring false

/-- A spatial reference identifier: one to five digits. -/
def srid : Rule :=
  .lexeme .literal .srid (word "SRID" ++ equalsSign ++ times 1 (some 5) digit ++ semicolon)

/-- A shape's keyword and its data. -/
def shapeWith (shape : Shape) (data : Rule) : Rule :=
  .enclosed .literal (word shape.name) data .empty

/-- A shape's keyword and a list, which may be empty, of other shapes' data. -/
def shapesOf (shape : Shape) (data : Rule) : Rule :=
  geoList (Text.ofWord shape.name) data true

def shape : Shape → Rule
  | .collection => .construct .collection
  | .lineString => shapeWith .lineString lineStringData
  | .multiLineString => shapesOf .multiLineString lineStringData
  | .multiPoint => shapesOf .multiPoint pointData
  | .multiPolygon => shapesOf .multiPolygon polygonData
  | .point => shapeWith .point pointData
  | .polygon => shapeWith .polygon polygonData

def geoTable : Table :=
  [⟨"collectionLiteral", shape .collection⟩,
   ⟨"lineStringLiteral", shape .lineString⟩,
   ⟨"multiPointLiteral", shape .multiPoint⟩,
   ⟨"multiLineStringLiteral", shape .multiLineString⟩,
   ⟨"multiPolygonLiteral", shape .multiPolygon⟩,
   ⟨"pointLiteral", shape .point⟩,
   ⟨"polygonLiteral", shape .polygon⟩]

def geoLiteral : Rule := geoTable.rule

/-- A collection holds at least one literal of any shape, collections included. -/
def collection : Rule := geoList (Text.ofWord Shape.collection.name) geoLiteral false

/-- A literal after the reference system that its coordinates belong to. -/
def withSrid (literal : Rule) : Rule := .pair .fullGeo .empty srid .empty literal

def surfacePrefix : Surface → Pattern
  | .geography => word "geography"
  | .geometry => word "geometry"

/-- A quoted literal after the keyword of its surface. Only its type is kept. -/
def quotedAs (type : EdmType) (keyword : Pattern) (literal : Rule) : Rule :=
  .withType type (.enclosed .literal (keyword ++ quote) literal quote)

def spatial (surface : Surface) (kind : Shape) : Rule :=
  quotedAs (.spatial surface kind) (surfacePrefix surface) (withSrid (shape kind))

end ODataLiteral.Grammar
