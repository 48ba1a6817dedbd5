import MapFeatures.Number.Decimal
/-!
# Attribute — the attributes of features

A feature has at most one attribute of a key.  Attributes are listed in the order in which their keys were first set;
setting a key again replaces value and minimum zoom in place.
-/
namespace MapFeatures

inductive AttributeType
  | string
  | number
  | boolean
deriving DecidableEq, Repr, Inhabited

def AttributeType.name : AttributeType → String
  | string => "String"
  | number => "Number"
  | boolean => "Boolean"

inductive AttributeValue
  | string (value : String)
  | number (value : Float)
  | boolean (value : Bool)
deriving DecidableEq, Repr, Inhabited

namespace AttributeValue

def type : AttributeValue → AttributeType
  | string _ => .string
  | number _ => .number
  | boolean _ => .boolean

/-- Numbers are written with the fewest digits that read back, without an exponent. -/
def text : AttributeValue → String
  | string value => value
  | number value => Decimal.shortest value
  | boolean true => "true"
  | boolean false => "false"

end AttributeValue

structure Attribute where
  key : String
  value : AttributeValue
  minZoom : UInt8
deriving DecidableEq, Repr, Inhabited

abbrev Attributes := List Attribute

namespace Attributes

/-- The attributes with one of them set. -/
def set (new : Attribute) : Attributes → Attributes
  | [] => [new]
  | a :: rest => if a.key = new.key then new :: rest else a :: set new rest

def get? (attributes : Attributes) (key : String) : Option Attribute := attributes.find? (·.key = key)

end Attributes
end MapFeatures
