import HalfBinary.Decimal

/-!
# Double-precision numbers

The finite numbers of the 64-bit binary format as `± significand · 2 ^ exponent`, the nearest one
to a decimal, their products and quotients, and the shortest decimal that is nearest to a given one.
-/

namespace HalfBinary

/-- A finite double. Subnormal numbers and zero have the least exponent. -/
structure Binary64 where
  negative : Bool
  significand : Nat
  exponent : Int
  significand_lt : significand < 0x20000000000000
  exponent_ge : -1074 ≤ exponent
  exponent_le : exponent ≤ 971
  deriving DecidableEq, Repr

namespace Binary64

/-- Zero with a sign. -/
def zero (negative : Bool) : Binary64 := ⟨negative, 0, -1074, by decide, by decide, by decide⟩

/-- The double of these parts, if they are in range. -/
def ofParts? (negative : Bool) (significand : Nat) (exponent : Int) : Option Binary64 :=
  if h : significand < 0x20000000000000 ∧ -1074 ≤ exponent ∧ exponent ≤ 971 then
    some ⟨negative, significand, exponent, h.1, h.2.1, h.2.2⟩
  else none

/-! ## Rounding -/

/-- The whole number nearest to `num / den`; a tie goes to the even one. -/
def roundQuotient (num den : Nat) : Nat :=
  let q := num / den
  let r := num % den
  if 2 * r < den then q else if den < 2 * r then q + 1 else q + q % 2

/-- The exponent at which the positive quotient `num / den` has 53 bits before the point. -/
def leadingExponent (num den : Nat) : Int :=
  let e : Int := (num.log2 : Int) - den.log2 - 53
  if (num <<< (-e).toNat) / (den <<< e.toNat) < 0x20000000000000 then e else e + 1

/-- The double nearest to the positive quotient `num / den`, a tie going to the even significand;
none where that is past the largest double. -/
def nearest? (negative : Bool) (num den : Nat) : Option Binary64 :=
  let e := max (-1074) (leadingExponent num den)
  let m := roundQuotient (num <<< (-e).toNat) (den <<< e.toNat)
  if m = 0x20000000000000 then ofParts? negative 0x10000000000000 (e + 1) else ofParts? negative m e

/-- The double nearest to `± digits · 10 ^ -scale`; none where the number is too large. Powers far
out of range are decided without expanding them. -/
def ofDigits? (negative : Bool) (digits : Nat) (scale : Int) : Option Binary64 :=
  if digits = 0 then some (zero negative)
  else if scale < -400 then none
  else if (digits.log2 : Int) + 400 < scale then some (zero negative)
  else nearest? negative (digits * Nat.pow 10 (-scale).toNat) (Nat.pow 10 scale.toNat)

/-! ## Arithmetic -/

/-- The double nearest to `num / den · 2 ^ e`. -/
def ofQuotient? (negative : Bool) (num den : Nat) (e : Int) : Option Binary64 :=
  if num = 0 then some (zero negative)
  else nearest? negative (num <<< e.toNat) (den <<< (-e).toNat)

def times? (x y : Binary64) : Option Binary64 :=
  ofQuotient? (x.negative != y.negative) (x.significand * y.significand) 1
    (x.exponent + y.exponent)

def over? (x y : Binary64) : Option Binary64 :=
  ofQuotient? (x.negative != y.negative) x.significand y.significand (x.exponent - y.exponent)

/-- The double nearest to a power of ten. -/
def tenTo? (power : Nat) : Option Binary64 := ofQuotient? false (Nat.pow 10 power) 1 0

/-- A double times a power of ten: the product or the quotient with the double nearest to the power.
Below the powers that are doubles the number is divided more than once; above them there is none,
except for zero. -/
def scale? (x : Binary64) (power : Int) : Option Binary64 :=
  if 308 < power then if x.significand = 0 then some x else none
  else if 0 ≤ power then do x.times? (← tenTo? power.toNat)
  else if _small : -308 ≤ power then do x.over? (← tenTo? (-power).toNat)
  else if x.significand = 0 then some x
  else do scale? (← x.over? (← tenTo? 308)) (power + 308)
termination_by (-power).toNat

/-- The double that a numeral is read as: its leading digits times their power of ten, rounded at
each step. It need not be the one nearest to the numeral. -/
def ofNumeral? (n : Numeral) : Option Binary64 := do
  let (digits, power) := n.leading
  let x ← (← ofQuotient? false digits 1 0).scale? power
  return { x with negative := n.negative }

/-! ## The shortest decimal -/

/-- Four times the significand and the two ends of the interval that rounds to the number. The
lower end is nearer where the spacing halves below it. -/
def quarters (x : Binary64) : Nat × Nat × Nat :=
  let m := 4 * x.significand
  let below := if x.significand = 0x10000000000000 ∧ -1074 < x.exponent then 1 else 2
  (m - below, m, m + 2)

/-- The multiple of `10 ^ p` nearest to the magnitude among those that round to the number, as the
multiplier; of two at one distance the even one. The ends of the interval count where the
significand is even. -/
def onGrid? (x : Binary64) (p : Int) : Option Nat :=
  let e := x.exponent - 2
  let a := Nat.pow 10 (-p).toNat <<< e.toNat
  let b := Nat.pow 10 p.toNat <<< (-e).toNat
  let (low, mid, high) := x.quarters
  let inside (c : Nat) : Bool :=
    if x.significand % 2 = 0 then low * a ≤ c * b && c * b ≤ high * a
    else low * a < c * b && c * b < high * a
  let c := mid * a / b
  match inside c, inside (c + 1) with
  | true, false => some c
  | false, true => some (c + 1)
  | false, false => none
  | true, true =>
    let down := mid * a - c * b
    let up := (c + 1) * b - mid * a
    if down < up then some c else if up < down then some (c + 1) else some (c + c % 2)

/-- A power of ten above the magnitude, and at most two places above its first digit. -/
def topPlace (x : Binary64) : Int :=
  (((x.significand.log2 : Int) + 1 + x.exponent) * 1233).fdiv 4096 + 1

/-- The decimal with the fewest digits that rounds to the number, and of those the nearest. Twenty
places below the first power always hold one, since seventeen digits tell any two doubles apart. -/
def shortest (x : Binary64) : Decimal :=
  if x.significand = 0 then ⟨0, 0⟩
  else
    let sign (c : Nat) : Int := if x.negative then -(c : Int) else c
    let places := (List.range 20).map fun (i : Nat) => x.topPlace - i
    match places.findSome? fun p => (x.onGrid? p).map fun c => (c, p) with
    | some (c, p) => ⟨sign c, -p⟩
    | none =>
      -- the exact value
      ⟨sign ((x.significand <<< x.exponent.toNat) * Nat.pow 5 (-x.exponent).toNat : Nat),
        ((-x.exponent).toNat : Int)⟩

end Binary64

end HalfBinary
