import HalfBinary.Json
import HalfBinary.Text.Digits

/-!
# Writing JSON

The compact form: no blanks, fields in their order. In a string only the quote, the backslash and
control characters are escaped.
-/

namespace HalfBinary.Json

def hexDigit (n : Nat) : Char := Nat.digitChar (n % 16)

/-- A character inside a string. -/
def escapeChar (c : Char) : List Char :=
  match c with
  | '"' => ['\\', '"']
  | '\\' => ['\\', '\\']
  | '\x08' => ['\\', 'b']
  | '\x0c' => ['\\', 'f']
  | '\n' => ['\\', 'n']
  | '\r' => ['\\', 'r']
  | '\t' => ['\\', 't']
  | c =>
    if c.toNat < 0x20 then ['\\', 'u', '0', '0', hexDigit (c.toNat / 16), hexDigit c.toNat] else [c]

def writeText (text : String) : List Char := '"' :: text.toList.flatMap escapeChar ++ ['"']

/-- A double in its shortest digits: with a point as long as the first digit stands at most sixteen
places before it or five after it, with a power of ten otherwise. -/
def writeDouble (value : Binary64) : List Char :=
  let d := value.shortest
  let ds := Nat.toDigits 10 d.digits.natAbs
  let point : Int := ds.length - d.scale
  let sign := if value.negative then ['-'] else []
  sign ++
    if d.digits = 0 then ['0', '.', '0']
    else if d.scale ≤ 0 ∧ point ≤ 16 then
      ds ++ List.replicate (-d.scale).toNat '0' ++ ['.', '0']
    else if 0 < point ∧ point ≤ 16 then ds.take point.toNat ++ '.' :: ds.drop point.toNat
    else if -5 < point ∧ point ≤ 0 then
      '0' :: '.' :: List.replicate (-point).toNat '0' ++ ds
    else
      let tail := ds.drop 1
      ds.take 1 ++ (if tail.isEmpty then [] else '.' :: tail) ++ 'e' :: Text.signed (point - 1)

def writeNumber : Number → List Char
  | .whole value => Text.signed value
  | .double value => writeDouble value

mutual

def write : Json → List Char
  | null => "null".toList
  | boolean true => "true".toList
  | boolean false => "false".toList
  | number value => writeNumber value
  | text value => writeText value
  | array items => '[' :: writeItems items
  | object fields => '{' :: writeFields fields

/-- The items after an opening bracket, with the closing one. -/
def writeItems : List Json → List Char
  | [] => [']']
  | [item] => write item ++ [']']
  | item :: items => write item ++ ',' :: writeItems items

/-- The fields after an opening brace, with the closing one. -/
def writeFields : List (String × Json) → List Char
  | [] => ['}']
  | [(name, value)] => writeText name ++ ':' :: write value ++ ['}']
  | (name, value) :: fields => writeText name ++ ':' :: write value ++ ',' :: writeFields fields

end

/-- The compact text of a value, as one string. -/
def compact (value : Json) : String := String.ofList (write value)

end HalfBinary.Json
