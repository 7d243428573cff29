import HalfBinary.Numeral

/-!
# Decimals

Exact decimal numbers `digits · 10 ^ -scale`. One value has many forms (`2.5` and `2.50`); the
order looks at the value alone and never expands a huge power of ten.
-/

namespace HalfBinary

/-- The number `digits · 10 ^ -scale`. -/
structure Decimal where
  digits : Int
  scale : Int
  deriving DecidableEq, Repr

namespace Decimal

def ofInt (value : Int) : Decimal := ⟨value, 0⟩

/-- The number of a numeral; its scale has to fit a signed 64-bit word, also where all digits are
zero. -/
def ofNumeral? (n : Numeral) : Option Decimal :=
  if -0x8000000000000000 ≤ n.scale ∧ n.scale < 0x8000000000000000 then
    some ⟨n.digits, n.scale⟩
  else none

/-! ## Order -/

/-- Compares `m · 10 ^ k` with `n`. A power with more places than `n` has bits decides at once. -/
def compareScaled (m k n : Nat) : Ordering :=
  if m = 0 then compare 0 n
  else if n.log2 < k then .gt
  else compare (m * Nat.pow 10 k) n

/-- Compares `m · 10 ^ -s` with `n · 10 ^ -t`. -/
def compareMagnitude (m : Nat) (s : Int) (n : Nat) (t : Int) : Ordering :=
  if s ≤ t then compareScaled m (t - s).toNat n else (compareScaled n (s - t).toNat m).swap

/-- Order by value. -/
protected def compare (a b : Decimal) : Ordering :=
  match compare a.digits.sign b.digits.sign with
  | .eq =>
    let magnitude := compareMagnitude a.digits.natAbs a.scale b.digits.natAbs b.scale
    if a.digits < 0 then magnitude.swap else magnitude
  | o => o

instance : Ord Decimal := ⟨Decimal.compare⟩

end Decimal

end HalfBinary
