import HalfBinary.Json
import HalfBinary.Literal
import Mathlib.Algebra.Order.Ring.Rat
import Mathlib.Algebra.Order.Field.Power
import Mathlib.Order.Compare
import Mathlib.Tactic.NormNum
import Mathlib.Tactic.FieldSimp
import Mathlib.Tactic.Positivity

/-!
# The values of numbers

The rational numbers that decimals and the numbers of facts stand for. All comparisons of numbers,
the direct one of two machine words included, are comparisons of these values.
-/

namespace HalfBinary

namespace Decimal

/-- The number that a decimal stands for. -/
def toRat (d : Decimal) : ℚ := d.digits * 10 ^ (-d.scale)

theorem toRat_ofInt (value : Int) : (ofInt value).toRat = value := by simp [toRat, ofInt]

theorem compareScaled_eq (m k n : Nat) : compareScaled m k n = compare (m * 10 ^ k) n := by
  rw [compareScaled]
  split
  · next zero => rw [zero, Nat.zero_mul]
  · next nonzero =>
    split
    · next short =>
      have bits : n < 2 ^ k := calc
        n < 2 ^ (n.log2 + 1) := Nat.lt_log2_self
        _ ≤ 2 ^ k := Nat.pow_le_pow_right (by decide) short
      have places : 2 ^ k ≤ 10 ^ k := Nat.pow_le_pow_left (by decide) k
      have multiple : 10 ^ k ≤ m * 10 ^ k := Nat.le_mul_of_pos_left _ (Nat.pos_of_ne_zero nonzero)
      exact (Nat.compare_eq_gt.2 (bits.trans_le (places.trans multiple))).symm
    · rfl

theorem compare_natCast_zpow {m n : Nat} {s t : Int} (below : s ≤ t) :
    compare (m * 10 ^ (t - s).toNat) n = compare (m * 10 ^ (-s) : ℚ) (n * 10 ^ (-t)) := by
  have positive : (0 : ℚ) < 10 ^ (-t) := by positivity
  have cast : ((m * 10 ^ (t - s).toNat : Nat) : ℚ) * 10 ^ (-t) = m * 10 ^ (-s) := by
    have power : (10 : ℚ) ^ (t - s).toNat = 10 ^ (t - s) := by
      rw [← zpow_natCast, Int.toNat_of_nonneg (Int.sub_nonneg.2 below)]
    have places : t - s + -t = -s := by omega
    rw [Nat.cast_mul, Nat.cast_pow, Nat.cast_ofNat, power, mul_assoc,
      ← zpow_add₀ (by norm_num : (10 : ℚ) ≠ 0), places]
  rw [← cmp_eq_compare, ← cmp_eq_compare, ← cast, cmp_mul_pos_right positive]
  exact (Nat.strictMono_cast.cmp_map_eq _ _).symm

theorem compareMagnitude_eq (m : Nat) (s : Int) (n : Nat) (t : Int) :
    compareMagnitude m s n t = compare (m * 10 ^ (-s) : ℚ) (n * 10 ^ (-t)) := by
  rw [compareMagnitude]
  split
  · next below => rw [compareScaled_eq, compare_natCast_zpow below]
  · next above =>
    rw [compareScaled_eq, compare_natCast_zpow (Int.le_of_not_le above), ← cmp_eq_compare,
      ← cmp_eq_compare, cmp_swap]

theorem toRat_of_nonneg {d : Decimal} (nonneg : 0 ≤ d.digits) :
    d.toRat = d.digits.natAbs * 10 ^ (-d.scale) := by
  have magnitude : (d.digits.natAbs : Int) = d.digits := Int.natAbs_of_nonneg nonneg
  rw [toRat, ← Int.cast_natCast, magnitude]

theorem toRat_of_neg {d : Decimal} (negative : d.digits < 0) :
    d.toRat = -(d.digits.natAbs * 10 ^ (-d.scale)) := by
  have magnitude : (d.digits.natAbs : Int) = -d.digits := Int.ofNat_natAbs_of_nonpos negative.le
  rw [toRat, ← Int.cast_natCast, magnitude, Int.cast_neg, neg_mul, neg_neg]

theorem toRat_lt_of_sign_lt {a b : Decimal} (h : a.digits.sign < b.digits.sign) :
    a.toRat < b.toRat := by
  have power (d : Decimal) : (0 : ℚ) < 10 ^ (-d.scale) := by positivity
  rcases lt_or_ge a.digits 0 with negative | nonneg
  · have above : 0 ≤ b.digits := by
      rw [Int.sign_eq_neg_one_of_neg negative] at h
      exact Int.sign_nonneg_iff.1 (by omega)
    calc
      a.toRat < 0 := mul_neg_of_neg_of_pos (Int.cast_lt_zero.2 negative) (power a)
      _ ≤ b.toRat := mul_nonneg (Int.cast_nonneg above) (power b).le
  · have sign : 0 ≤ a.digits.sign := Int.sign_nonneg_iff.2 nonneg
    have positive : 0 < b.digits := Int.sign_pos_iff.1 (sign.trans_lt h)
    have zero : a.digits = 0 := by
      rw [Int.sign_eq_one_of_pos positive] at h
      exact Int.sign_eq_zero_iff_zero.1 (by omega)
    calc
      a.toRat = 0 := by rw [toRat, zero, Int.cast_zero, zero_mul]
      _ < b.toRat := mul_pos (Int.cast_pos.2 positive) (power b)

/-- The order of decimals is that of their values. -/
theorem compare_eq_compare_toRat (a b : Decimal) : compare a b = compare a.toRat b.toRat := by
  change Decimal.compare a b = _
  rw [Decimal.compare]
  split
  · next same =>
    have same : a.digits.sign = b.digits.sign := compare_eq_iff_eq.1 same
    dsimp only
    rw [compareMagnitude_eq]
    split
    · next negative =>
      have negative' : b.digits < 0 := by
        rw [← Int.sign_neg_iff, ← same]
        exact Int.sign_neg_iff.2 negative
      rw [toRat_of_neg negative, toRat_of_neg negative', ← cmp_eq_compare, ← cmp_eq_compare,
        cmp_swap]
      exact (StrictAnti.cmp_map_eq (fun _ _ => neg_lt_neg) _ _).symm
    · next nonneg =>
      have nonneg' : 0 ≤ b.digits := by
        rw [← Int.sign_nonneg_iff, ← same]
        exact Int.sign_nonneg_iff.2 (not_lt.1 nonneg)
      rw [toRat_of_nonneg (not_lt.1 nonneg), toRat_of_nonneg nonneg']
  · next differ =>
    rcases lt_trichotomy a.digits.sign b.digits.sign with less | same | greater
    · rw [compare_lt_iff_lt.2 less, compare_lt_iff_lt.2 (toRat_lt_of_sign_lt less)]
    · exact (differ (compare_eq_iff_eq.2 same)).elim
    · rw [compare_gt_iff_gt.2 greater, compare_gt_iff_gt.2 (toRat_lt_of_sign_lt greater)]

end Decimal

namespace Number

/-- The number that a number of a fact stands for. -/
def toRat (n : Number) : ℚ := n.toDecimal.toRat

/-- The direct comparison of machine words agrees with that of decimals. -/
theorem compareInteger_eq (left : Number) (right : Int) :
    left.compareInteger right = compare left.toRat right := by
  rw [compareInteger]
  split
  · next value word =>
    cases left with
    | double _ => cases word
    | whole value' =>
      rw [toInt64?] at word
      split at word
      · cases word
        rw [toRat, toDecimal, Decimal.toRat_ofInt, ← cmp_eq_compare, ← cmp_eq_compare]
        exact (Int.cast_strictMono.cmp_map_eq _ _).symm
      · cases word
  · rw [Decimal.compare_eq_compare_toRat, Decimal.toRat_ofInt]
    rfl

end Number

/-- The number that a numeric literal stands for. -/
def Literal.toRat? : Literal → Option ℚ
  | integer v => some v
  | decimal d => some d.toRat
  | null | boolean _ | text _ => none

end HalfBinary
