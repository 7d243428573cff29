import HalfBinary.Calendar.Instant
import HalfBinary.Constraint
import HalfBinary.Json
import HalfBinary.Schema.Registry

/-!
# Comparators

A comparison fixed to the type of the values it will see. Resolving converts the literal once;
testing is total. A value that does not convert satisfies `!=` and no other operator.
-/

namespace HalfBinary

/-- A family of values with an order of its own. -/
inductive Family where
  | text | boolean | date | dateTime
  deriving DecidableEq, Repr

/-- The way in which a comparator compares. -/
inductive Strategy where
  | numeric
  | natural (family : Family)
  | equality
  deriving DecidableEq, Repr

/-- The label of a strategy in reports. -/
def Strategy.name : Strategy → String
  | numeric => "numeric"
  | natural .text => "natural_text"
  | natural .boolean => "natural_boolean"
  | natural .date => "natural_date"
  | natural .dateTime => "natural_date_time"
  | equality => "equality"

/-- The converted right-hand side of a comparison. -/
inductive Operand where
  | integer (value : Int)
  | decimal (value : Decimal)
  | text (value : String)
  | boolean (value : Bool)
  | date (value : Date)
  | instant (value : Instant)
  /-- A literal that values are equal to or not. -/
  | literal (value : Literal)
  deriving DecidableEq, Repr

namespace Operand

def strategy : Operand → Strategy
  | integer _ | decimal _ => .numeric
  | text _ => .natural .text
  | boolean _ => .natural .boolean
  | date _ => .natural .date
  | instant _ => .natural .dateTime
  | literal _ => .equality

/-- How a value compares with an operand; none if it does not convert or there is no order. Text is
in the order of its bytes, which is that of its code points, and false is before true. -/
def ordering? : Operand → Json → Option Ordering
  | integer right, .number left => some (left.compareInteger right)
  | decimal right, .number left => some (compare left.toDecimal right)
  | text right, .text left => some (compare left right)
  | boolean right, .boolean left => some (compare left right)
  | date right, .text left => (Date.ofText? left).map (compare · right)
  | instant right, .text left => (Instant.ofText? left).map (compare · right)
  | _, _ => none

end Operand

/-- Whether a value is what a literal denotes; numbers are equal by value. -/
def Literal.denotes : Literal → Json → Bool
  | null, .null => true
  | boolean right, .boolean left => left == right
  | text right, .text left => left == right
  | integer right, .number left => (left.compareInteger right).isEq
  | decimal right, .number left => (compare left.toDecimal right).isEq
  | _, _ => false

structure Comparator where
  operator : Operator
  operand : Operand
  deriving DecidableEq, Repr

namespace Comparator

def test (c : Comparator) (value : Json) : Bool :=
  match c.operand with
  | .literal l => if c.operator = .ne then !l.denotes value else l.denotes value
  | operand =>
    match operand.ordering? value with
    | some o => c.operator.accepts o
    | none => c.operator = .ne

/-- The error of a text literal that is not in the format of its type. -/
private def malformed (c : Comparison) (expected : String) : ClauseError :=
  .invalidLiteral c.literal.render expected c.offset

/-- The comparator of a comparison of values of a type. Literals of the type's own family are
converted; any other literal leaves equality alone. -/
def resolve (valueType : TypeDescriptor) (c : Comparison) : Except ClauseError Comparator :=
  match valueType.scalarKind?, c.literal with
  | some .integer, .integer value | some .decimal, .integer value =>
    .ok ⟨c.operator, .integer value⟩
  | some .integer, .decimal value | some .decimal, .decimal value =>
    .ok ⟨c.operator, .decimal value⟩
  | some .text, .text value => .ok ⟨c.operator, .text value⟩
  | some .boolean, .boolean value => .ok ⟨c.operator, .boolean value⟩
  | some .date, .text value =>
    match Date.ofText? value with
    | some date => .ok ⟨c.operator, .date date⟩
    | none => .error (malformed c "date")
  | some .dateTime, .text value =>
    match Instant.ofText? value with
    | some instant => .ok ⟨c.operator, .instant instant⟩
    | none => .error (malformed c "RFC 3339 date-time")
  | _, value =>
    if c.operator.requiresOrdering then
      .error (.incomparableTypes c.operator valueType.name value.typeName)
    else .ok ⟨c.operator, .literal value⟩

end Comparator

end HalfBinary
