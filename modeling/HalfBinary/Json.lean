import HalfBinary.Binary64

/-!
# JSON values

Facts are JSON values. A number is a whole number or a double; comparisons see both as exact
decimals, a double standing for its shortest decimal.
-/

namespace HalfBinary

inductive Number where
  | whole (value : Int)
  | double (value : Binary64)
  deriving DecidableEq, Repr

namespace Number

/-- The decimal that the number stands for. -/
def toDecimal : Number → Decimal
  | whole value => .ofInt value
  | double value => value.shortest

/-- The number as a signed 64-bit word. -/
def toInt64? : Number → Option Int
  | whole value =>
    if -0x8000000000000000 ≤ value ∧ value < 0x8000000000000000 then some value else none
  | double _ => none

/-- How the number compares with a signed 64-bit word: two such words directly, anything else by
decimals. -/
def compareInteger (left : Number) (right : Int) : Ordering :=
  match left.toInt64? with
  | some left => compare left right
  | none => compare left.toDecimal (.ofInt right)

/-- The number that a numeral stands for: a whole number of at most 64 bits is kept exactly, but
minus zero and every other numeral is a double. None is too large for a double. -/
def ofNumeral? (n : Numeral) : Option Number :=
  if n.isWhole ∧ -0x8000000000000000 ≤ n.digits ∧ n.digits < 0x10000000000000000 ∧
      ¬ (n.negative ∧ n.digits = 0) then
    some (whole n.digits)
  else (Binary64.ofNumeral? n).map double

end Number

/-- A JSON value. The names of an object are distinct and keep the order in which they were first
given. -/
inductive Json where
  | null
  | boolean (value : Bool)
  | number (value : Number)
  | text (value : String)
  | array (items : List Json)
  | object (fields : List (String × Json))
  deriving Inhabited, Repr

namespace Json

def whole (value : Int) : Json := .number (.whole value)

def nat (value : Nat) : Json := .whole value

/-- The value of a field, or none if this is not an object that has it. -/
def field? (name : String) : Json → Option Json
  | object fields => fields.lookup name
  | _ => none

def ofOption (encode : α → Json) : Option α → Json
  | none => null
  | some a => encode a

end Json

end HalfBinary
