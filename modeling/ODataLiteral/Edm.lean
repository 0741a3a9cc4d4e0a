/-! The primitive types of the Entity Data Model.
The spatial types are the seven shapes, each on a round-earth and on a flat surface. -/
namespace ODataLiteral

/-- What a spatial literal draws. -/
inductive Shape where
  | collection
  | lineString
  | multiLineString
  | multiPoint
  | multiPolygon
  | point
  | polygon
deriving DecidableEq, Repr

/-- Where its coordinates lie: on the round earth or in a plane. -/
inductive Surface where
  | geography
  | geometry
deriving DecidableEq, Repr

inductive EdmType where
  | binary
  | boolean
  | byte
  | date
  | dateTimeOffset
  | decimal
  | double
  | duration
  | guid
  | int16
  | int32
  | int64
  | sbyte
  | single
  | string
  | timeOfDay
  | spatial (surface : Surface) (shape : Shape)
deriving DecidableEq, Repr

def Shape.name : Shape → String
  | collection => "Collection"
  | lineString => "LineString"
  | multiLineString => "MultiLineString"
  | multiPoint => "MultiPoint"
  | multiPolygon => "MultiPolygon"
  | point => "Point"
  | polygon => "Polygon"

def Shape.all : List Shape :=
  [collection, lineString, multiLineString, multiPoint, multiPolygon, point, polygon]

def Surface.name : Surface → String
  | geography => "Geography"
  | geometry => "Geometry"

namespace EdmType

/-- The unqualified name. -/
def name : EdmType → String
  | binary => "Binary"
  | boolean => "Boolean"
  | byte => "Byte"
  | date => "Date"
  | dateTimeOffset => "DateTimeOffset"
  | decimal => "Decimal"
  | double => "Double"
  | duration => "Duration"
  | guid => "Guid"
  | int16 => "Int16"
  | int32 => "Int32"
  | int64 => "Int64"
  | sbyte => "SByte"
  | single => "Single"
  | string => "String"
  | timeOfDay => "TimeOfDay"
  | spatial surface shape => surface.name ++ shape.name

/-- The name in the model's namespace, as a literal's type is written. -/
def tag (type : EdmType) : String :=
  "Edm." ++ type.name

def isSpatial : EdmType → Bool
  | spatial _ _ => true
  | _ => false

def all : List EdmType :=
  [binary, boolean, byte, date, dateTimeOffset, decimal, double, duration, guid, int16, int32, int64,
    sbyte, single, string, timeOfDay] ++
    Shape.all.map (spatial .geography) ++ Shape.all.map (spatial .geometry)

/-- The type with a given tag. -/
def ofTag? (tag : String) : Option EdmType :=
  all.find? (·.tag == tag)

end EdmType

end ODataLiteral
