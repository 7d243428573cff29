import HalfBinary.Decimal
import HalfBinary.Text.Digits

/-!
# Rendering decimals

The text of a decimal: plain as long as few zeros are needed, with a power of ten otherwise.
-/

namespace HalfBinary.Decimal

/-- How a decimal is laid out. -/
inductive Layout where
  /-- All digits, with a point among or before them. -/
  | plain
  /-- One digit, a point and the other digits, then `E` and the power. -/
  | scientific
  /-- All digits as a whole number, then `e+` and the power. -/
  | raised
  deriving DecidableEq, Repr

/-- More than five zeros after the point make a number scientific, and more than fifteen zeros at
its end raise it. -/
def layout (digitCount : Nat) (scale : Int) : Layout :=
  if scale > 0 ∧ scale - digitCount > 5 then .scientific
  else if scale < -15 then .raised
  else .plain

/-- The plain text of digits whose point stands `scale` places from the right. -/
def plain (ds : List Char) (scale : Int) : List Char :=
  if scale ≤ 0 then ds ++ List.replicate (-scale).toNat '0'
  else
    let places := scale.toNat
    if places < ds.length then ds.take (ds.length - places) ++ '.' :: ds.drop (ds.length - places)
    else '0' :: '.' :: List.replicate (places - ds.length) '0' ++ ds

/-- The text of the magnitude with these digits. -/
def renderDigits (ds : List Char) (scale : Int) : List Char :=
  match layout ds.length scale with
  | .plain => plain ds scale
  | .scientific =>
    let tail := ds.drop 1
    ds.take 1 ++ (if tail.isEmpty then [] else '.' :: tail) ++
      'E' :: Text.signed (ds.length - 1 - scale)
  | .raised => ds ++ 'e' :: '+' :: Text.signed (-scale)

/-- The text of a decimal; zero has one text, whatever its scale. -/
def render (d : Decimal) : List Char :=
  let sign := if d.digits < 0 then ['-'] else []
  sign ++ renderDigits (Nat.toDigits 10 d.digits.natAbs) (if d.digits = 0 then 0 else d.scale)

example : render ⟨250, 2⟩ = "2.50".toList := by decide +kernel
example : render ⟨1, 5⟩ = "0.00001".toList := by decide +kernel
example : render ⟨-123, 9⟩ = "-1.23E-7".toList := by decide +kernel
example : render ⟨15, -16⟩ = "15e+16".toList := by decide +kernel
example : render ⟨1, -15⟩ = "1000000000000000".toList := by decide +kernel
example : render ⟨0, -40⟩ = "0".toList := by decide +kernel

end HalfBinary.Decimal
