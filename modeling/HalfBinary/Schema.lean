import Std.Data.TreeMap

/-!
# Subject types

A type is a scalar of one of six kinds, a record with named properties, or an atom that knows
equality only. Numbers and booleans also have views: properties that read the value itself.
-/

namespace HalfBinary

/-- The family of values that a scalar type holds. -/
inductive ScalarKind where
  | integer | decimal | text | boolean | date | dateTime
  deriving DecidableEq, Repr

namespace ScalarKind

def all : List ScalarKind := [integer, decimal, text, boolean, date, dateTime]

def name : ScalarKind → String
  | integer => "integer"
  | decimal => "decimal"
  | text => "text"
  | boolean => "boolean"
  | date => "date"
  | dateTime => "date_time"

def ofName? (word : String) : Option ScalarKind := all.find? (·.name == word)

/-- Values of these kinds are compared as numbers. -/
def isNumeric : ScalarKind → Bool
  | integer | decimal => true
  | text | boolean | date | dateTime => false

/-- The views of the kind and the types they lead to. -/
def views : ScalarKind → List (String × String)
  | integer =>
    [("intValue", "Integer"), ("longValue", "Long"), ("shortValue", "Short"),
      ("byteValue", "Byte"), ("doubleValue", "Double"), ("floatValue", "Float")]
  | decimal => [("doubleValue", "Double"), ("floatValue", "Float")]
  | boolean => [("booleanValue", "Boolean")]
  | text | date | dateTime => []

end ScalarKind

inductive Shape where
  | scalar (kind : ScalarKind)
  /-- An object; each property leads to the type of this name. -/
  | record (properties : Std.TreeMap String String)
  /-- A value that can only be equal to another or not. -/
  | atom

/-- How a segment of a path reads its value. -/
inductive SegmentAccess where
  | field
  | view
  deriving DecidableEq, Repr

def SegmentAccess.name : SegmentAccess → String
  | field => "field"
  | view => "view"

namespace Shape

/-- How a property is read and the name of the type it leads to. -/
def property? (segment : String) : Shape → Option (SegmentAccess × String)
  | scalar kind => (kind.views.lookup segment).map (.view, ·)
  | record properties => properties[segment]?.map (.field, ·)
  | atom => none

/-- The names of the types that properties lead to, in the order of the properties. -/
def targets : Shape → List String
  | scalar kind => kind.views.map (·.2)
  | record properties => properties.toList.map (·.2)
  | atom => []

end Shape

structure TypeDescriptor where
  name : String
  shape : Shape

namespace TypeDescriptor

def scalarKind? (d : TypeDescriptor) : Option ScalarKind :=
  match d.shape with
  | .scalar kind => some kind
  | .record _ | .atom => none

/-- How a property is read and the name of the type it leads to. -/
def property? (d : TypeDescriptor) (segment : String) : Option (SegmentAccess × String) :=
  d.shape.property? segment

end TypeDescriptor

end HalfBinary
