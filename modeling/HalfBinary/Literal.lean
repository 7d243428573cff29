import HalfBinary.Decimal.Rendering

/-!
# Literals

The right-hand sides of comparisons. Rendering a literal gives clause text again: double quotes,
and escapes for what the quotes cannot hold.
-/

namespace HalfBinary

/-- A literal of a clause. A number without fraction and power of ten that fits a signed 64-bit
word is an integer; every other number is a decimal. -/
inductive Literal where
  | null
  | boolean (value : Bool)
  | integer (value : Int)
  | decimal (value : Decimal)
  | text (value : String)
  deriving DecidableEq, Repr

namespace Literal

/-- The name of the literal's type in diagnostics. -/
def typeName : Literal → String
  | null => "null"
  | boolean _ => "Boolean"
  | integer _ => "Integer"
  | decimal _ => "BigDecimal"
  | text _ => "String"

def isNumeric : Literal → Bool
  | integer _ | decimal _ => true
  | null | boolean _ | text _ => false

/-- The number that a numeric literal stands for. -/
def toDecimal? : Literal → Option Decimal
  | integer value => some (.ofInt value)
  | decimal value => some value
  | null | boolean _ | text _ => none

/-- A character between double quotes. -/
def escapeChar (c : Char) : List Char :=
  match c with
  | '"' => ['\\', '"']
  | '\\' => ['\\', '\\']
  | '\n' => ['\\', 'n']
  | '\t' => ['\\', 't']
  | '\r' => ['\\', 'r']
  | c => [c]

/-- The characters of a literal as clause text. -/
def chars : Literal → List Char
  | null => "null".toList
  | boolean true => "true".toList
  | boolean false => "false".toList
  | integer value => Text.signed value
  | decimal value => value.render
  | text value => '"' :: value.toList.flatMap escapeChar ++ ['"']

def render (l : Literal) : String := String.ofList l.chars

/-- The literal of a numeral; none if its scale is out of range. -/
def ofNumeral? (n : Numeral) : Option Literal :=
  if n.isWhole ∧ -0x8000000000000000 ≤ n.digits ∧ n.digits < 0x8000000000000000 then
    some (integer n.digits)
  else (Decimal.ofNumeral? n).map decimal

end Literal

end HalfBinary
