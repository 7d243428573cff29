import HalfBinary.Binary64
import HalfBinary.Calendar.Date
import HalfBinary.Toml

/-!
# Unquoted values

Booleans, numbers, dates and times of day from their characters.
-/

namespace HalfBinary.Toml

/-- Digits in groups, without the underscores between them. -/
def ungroup? (isDigit : Char → Bool) (cs : List Char) : Option (List Char) :=
  let groups := cs.splitOn '_'
  if groups.all fun g => !g.isEmpty && g.all isDigit then some groups.flatten else none

/-- Decimal digits without a superfluous zero in front. -/
def leadingDigits? (cs : List Char) : Option (List Char) := do
  let ds ← ungroup? Char.isDigit cs
  if ds.head? = some '0' ∧ ds.length ≠ 1 then none else return ds

/-- The sign of a number, true for minus, and what follows it. -/
def splitSign : List Char → Bool × List Char
  | '-' :: rest => (true, rest)
  | '+' :: rest => (false, rest)
  | rest => (false, rest)

/-- A whole number from the least signed to the greatest unsigned one of 64 bits. -/
def bounded? (value : Int) : Option Scalar :=
  if -0x8000000000000000 ≤ value ∧ value < 0x10000000000000000 then some (.whole value) else none

/-- The value of digits in a base. -/
def valueIn (base : Nat) (ds : List Char) : Nat :=
  ds.foldl (fun value d =>
    value * base + (if d.isDigit then d.toNat - '0'.toNat else d.toLower.toNat - 'a'.toNat + 10)) 0

/-- A whole number in a base, after the mark of the base. -/
def inBase? (base : Nat) (cs : List Char) : Option Scalar := do
  let isDigit (c : Char) :=
    if c.isDigit then c.toNat - '0'.toNat < base
    else base == 16 && 'a' ≤ c.toLower && c.toLower ≤ 'f'
  bounded? (valueIn base (← ungroup? isDigit cs))

def readWhole? : List Char → Option Scalar
  | '0' :: 'x' :: ds => inBase? 16 ds
  | '0' :: 'o' :: ds => inBase? 8 ds
  | '0' :: 'b' :: ds => inBase? 2 ds
  | cs => do
    let (negative, ds) := splitSign cs
    let magnitude : Int := Nat.ofDigitChars 10 (← leadingDigits? ds) 0
    bounded? (if negative then -magnitude else magnitude)

/-- A number with a fraction or a power of ten that is not too large for a double, or a special
number. -/
def readReal? (cs : List Char) : Option Scalar := do
  let (negative, cs) := splitSign cs
  if cs = "inf".toList ∨ cs = "nan".toList then return .real
  let isMark (c : Char) := c == 'e' || c == 'E'
  let mantissa := cs.takeWhile (!isMark ·)
  let exponent ← match cs.dropWhile (!isMark ·) with
    | [] => pure none
    | _ :: power =>
      let (below, ds) := splitSign power
      pure (some (below, ← ungroup? Char.isDigit ds))
  let fraction ← match mantissa.dropWhile (· != '.') with
    | [] => pure []
    | _ :: ds => ungroup? Char.isDigit ds
  let whole ← leadingDigits? (mantissa.takeWhile (· != '.'))
  let n : Numeral := ⟨negative, whole, fraction, exponent⟩
  if n.isWhole then none
  else (Binary64.ofDigits? negative n.digits.natAbs n.scale).map fun _ => .real

/-! ## Dates and times -/

/-- The rest after a number of two digits that is at most `limit`. -/
private def twoDigits (limit : Nat) : List Char → Option (List Char)
  | c :: d :: rest => do
    if (← Text.natOfDigits? [c, d]) ≤ limit then return rest else none
  | _ => none

/-- The rest after a date `YYYY-MM-DD` of the calendar. -/
def skipDate (cs : List Char) : Option (List Char) :=
  match cs with
  | y₁ :: y₂ :: y₃ :: y₄ :: '-' :: m₁ :: m₂ :: '-' :: d₁ :: d₂ :: rest => do
    let year ← Text.natOfDigits? [y₁, y₂, y₃, y₄]
    let month ← Text.natOfDigits? [m₁, m₂]
    let day ← Text.natOfDigits? [d₁, d₂]
    if (Date.ofParts? year month day).isSome then return rest else none
  | _ => none

/-- The rest after a time of day; its seconds and their fraction may be left out. -/
def skipTime (cs : List Char) : Option (List Char) := do
  match ← twoDigits 23 cs with
  | ':' :: rest =>
    match ← twoDigits 59 rest with
    | ':' :: rest =>
      match ← twoDigits 60 rest with
      | '.' :: rest =>
        if rest.head?.any Char.isDigit then return rest.dropWhile Char.isDigit else none
      | rest => return rest
    | rest => return rest
  | _ => none

/-- Whether nothing or an offset from universal time is left. -/
def isOffset : List Char → Bool
  | [] | ['Z'] | ['z'] => true
  | sign :: rest =>
    (sign == '+' || sign == '-') &&
      match twoDigits 23 rest with
      | some (':' :: rest) => twoDigits 59 rest == some []
      | _ => false

/-- Whether the characters are a date, a time of day, or a date and a time with or without an
offset. -/
def isMoment (cs : List Char) : Bool :=
  match skipDate cs with
  | none => skipTime cs == some []
  | some [] => true
  | some (separator :: time) =>
    ['T', 't', ' '].contains separator && (skipTime time).any isOffset

/-- The value that unquoted characters are written for. -/
def Scalar.ofChars? (cs : List Char) : Option Scalar :=
  if cs = "true".toList then some (.flag true)
  else if cs = "false".toList then some (.flag false)
  else if isMoment cs then some (.moment (String.ofList cs))
  else (readWhole? cs).or (readReal? cs)

example : Scalar.ofChars? "0x_1".toList = none := by decide +kernel
example : Scalar.ofChars? "-1_000".toList = some (.whole (-1000)) := by decide +kernel
example : Scalar.ofChars? "08".toList = none := by decide +kernel
example : Scalar.ofChars? "0xdead_BEEF".toList = some (.whole 3735928559) := by decide +kernel
example : Scalar.ofChars? "6.02e+23".toList = some .real := by decide +kernel
example : Scalar.ofChars? "1.e3".toList = none := by decide +kernel
example : Scalar.ofChars? "1e400".toList = none := by decide +kernel
example : (Scalar.ofChars? "1979-05-27 07:32".toList).isSome := by decide +kernel
example : Scalar.ofChars? "1979-02-29".toList = none := by decide +kernel

end HalfBinary.Toml
