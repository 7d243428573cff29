import Mathlib
import HalfBinary.Proofs.Decimals

/-!
# The shortest decimal of a double

A double stands for the shortest decimal that rounds to it (`isShortest_shortest`). The decimals
that round to a double are those of an interval around it (`rounds_iff_within`); the search tries
the powers of ten from the greatest down, and on each of them the two multiples next to the double.
-/

namespace HalfBinary

namespace Binary64

/-- The absolute value of a double. -/
def magnitude (x : Binary64) : ℚ := x.significand * 2 ^ x.exponent

/-- A double is in the form that readers give it: all 53 bits are in use, or the exponent is the
least. -/
def Canonical (x : Binary64) : Prop := 0x10000000000000 ≤ x.significand ∨ x.exponent = -1074

/-- The magnitudes of the format, were there no greatest exponent. -/
def OfFormat (v : ℚ) : Prop :=
  ∃ (m : ℕ) (e : ℤ), m < 0x20000000000000 ∧ -1074 ≤ e ∧ v = m * 2 ^ e

/-- A number rounds to the magnitude of a double: every other magnitude of the format is farther
away, or as far where the significand of the double is even. -/
def Rounds (x : Binary64) (q : ℚ) : Prop :=
  ∀ v, OfFormat v → v ≠ x.magnitude → |q - x.magnitude| < |q - v| ∨
    |q - x.magnitude| = |q - v| ∧ x.significand % 2 = 0

/-! ### Neighbours -/

theorem lt_midpoint_iff {a b q : ℚ} (less : a < b) {even : Prop} :
    (|q - a| < |q - b| ∨ |q - a| = |q - b| ∧ even) ↔ q < (a + b) / 2 ∨ q = (a + b) / 2 ∧ even := by
  have nearer : |q - a| < |q - b| ↔ q < (a + b) / 2 := by
    rw [← sq_lt_sq]
    constructor <;> intro h <;> nlinarith
  have tie : |q - a| = |q - b| ↔ q = (a + b) / 2 := by
    rw [← sq_eq_sq_iff_abs_eq_abs]
    constructor
    · intro h
      have factor : (b - a) * (q - (a + b) / 2) = 0 := by linarith
      rcases mul_eq_zero.1 factor with same | middle
      · exact absurd same (sub_pos.2 less).ne'
      · exact sub_eq_zero.1 middle
    · rintro rfl
      ring
  rw [nearer, tie]

theorem midpoint_lt_iff {a b q : ℚ} (less : a < b) {even : Prop} :
    (|q - b| < |q - a| ∨ |q - b| = |q - a| ∧ even) ↔ (a + b) / 2 < q ∨ q = (a + b) / 2 ∧ even := by
  -- The mirror image of the other side.
  have mirror := @lt_midpoint_iff (-b) (-a) (-q) (neg_lt_neg less) even
  have swap (c : ℚ) : |-q - -c| = |q - c| := by rw [← abs_neg]; congr 1; ring
  have middle : (-b + -a) / 2 = -((a + b) / 2) := by ring
  rwa [swap, swap, middle, neg_lt_neg_iff, neg_inj] at mirror

/-- A magnitude of the format is a multiple of a power of two, or less than all multiples that use
all 53 bits. -/
theorem OfFormat.exists_multiple_or_lt {v : ℚ} (format : OfFormat v) (g : ℤ) :
    (∃ n : ℕ, v = n * 2 ^ g) ∨ v < 0x10000000000000 * 2 ^ g ∧ -1074 < g := by
  obtain ⟨m, e, fits, least, rfl⟩ := format
  rcases le_or_gt g e with le | less
  · refine .inl ⟨m * 2 ^ (e - g).toNat, ?_⟩
    have power : (2 : ℚ) ^ (e - g).toNat * 2 ^ g = 2 ^ e := by
      rw [← zpow_natCast, Int.toNat_of_nonneg (by omega), ← zpow_add₀ two_ne_zero,
        Int.sub_add_cancel]
    rw [Nat.cast_mul, Nat.cast_pow, Nat.cast_ofNat, mul_assoc, power]
  · refine .inr ⟨?_, by omega⟩
    have power : (2 : ℚ) ^ e * 2 ≤ 2 ^ g := by
      rw [← zpow_add_one₀ two_ne_zero]
      exact zpow_le_zpow_right₀ (by norm_num) (by omega)
    have bound : (m : ℚ) < 0x20000000000000 := by exact_mod_cast fits
    calc
      (m : ℚ) * 2 ^ e < 0x20000000000000 * 2 ^ e := by gcongr
      _ = 0x10000000000000 * (2 ^ e * 2) := by ring
      _ ≤ 0x10000000000000 * 2 ^ g := by gcongr

section

variable {x : Binary64}

/-- A quarter of the spacing above a double. -/
def quarter (x : Binary64) : ℚ := 2 ^ (x.exponent - 2)

/-- How many quarters below a double the lower end of its interval is. -/
def below (x : Binary64) : ℕ :=
  if x.significand = 0x10000000000000 ∧ -1074 < x.exponent then 1 else 2

theorem one_le_below (x : Binary64) : 1 ≤ x.below := by
  unfold below
  split <;> decide

theorem below_le (x : Binary64) : x.below ≤ 2 := by
  unfold below
  split <;> decide

theorem quarters_eq : x.quarters =
    (4 * x.significand - x.below, 4 * x.significand, 4 * x.significand + 2) := rfl

theorem quarter_pos : 0 < x.quarter := by
  unfold quarter
  positivity

theorem zpow_exponent : (2 : ℚ) ^ x.exponent = 4 * x.quarter := by
  rw [quarter, zpow_sub₀ two_ne_zero]
  norm_num
  ring

theorem magnitude_eq : x.magnitude = 4 * x.significand * x.quarter := by
  rw [magnitude, zpow_exponent]
  ring

/-- The next magnitude above. -/
theorem add_quarter_le (canonical : x.Canonical) {v : ℚ} (format : OfFormat v)
    (above : x.magnitude < v) : x.magnitude + 4 * x.quarter ≤ v := by
  have positive : (0 : ℚ) < 2 ^ x.exponent := by positivity
  rcases format.exists_multiple_or_lt x.exponent with ⟨n, rfl⟩ | ⟨less, greater⟩
  · have more : x.significand + 1 ≤ n := by
      exact_mod_cast lt_of_mul_lt_mul_right above positive.le
    calc
      x.magnitude + 4 * x.quarter = (x.significand + 1 : ℕ) * 2 ^ x.exponent := by
        rw [← zpow_exponent, magnitude]
        push_cast
        ring
      _ ≤ n * 2 ^ x.exponent := by gcongr
  · have full : (0x10000000000000 : ℚ) ≤ x.significand := by
      exact_mod_cast canonical.resolve_right (by omega)
    have small : x.magnitude < x.magnitude := calc
      x.magnitude < v := above
      _ < 0x10000000000000 * 2 ^ x.exponent := less
      _ ≤ x.significand * 2 ^ x.exponent := by gcongr
    exact absurd small (lt_irrefl _)

theorem ofFormat_add : OfFormat (x.magnitude + 4 * x.quarter) := by
  have next : x.magnitude + 4 * x.quarter = (x.significand + 1 : ℕ) * 2 ^ x.exponent := by
    rw [← zpow_exponent, magnitude]
    push_cast
    ring
  rw [next]
  by_cases fits : x.significand + 1 < 0x20000000000000
  · exact ⟨_, _, fits, x.exponent_ge, rfl⟩
  · have full : x.significand + 1 = 0x20000000000000 := by
      have := x.significand_lt
      omega
    have least := x.exponent_ge
    refine ⟨0x10000000000000, x.exponent + 1, by norm_num, by omega, ?_⟩
    rw [full, zpow_add_one₀ two_ne_zero]
    push_cast
    ring

/-- The next magnitude below in its own form: one step of the last bit less, or of the bit after it
where the spacing halves. -/
theorem exists_predecessor (nonzero : x.significand ≠ 0) : ∃ (m : ℕ) (g : ℤ),
    x.magnitude - 2 * x.below * x.quarter = m * 2 ^ g ∧ x.magnitude = (m + 1 : ℕ) * 2 ^ g ∧
      m < 0x20000000000000 ∧ -1074 ≤ g ∧
        (x.Canonical → -1074 < g → 0x10000000000000 ≤ m) := by
  have fits := x.significand_lt
  have least := x.exponent_ge
  -- Below the least significand of an exponent the spacing is that of the exponent before.
  by_cases halves : x.significand = 0x10000000000000 ∧ -1074 < x.exponent
  · have power : (2 : ℚ) ^ (x.exponent - 1) = 2 * x.quarter := by
      rw [zpow_sub_one₀ two_ne_zero, zpow_exponent]
      ring
    have steps : x.below = 1 := if_pos halves
    refine ⟨0x1fffffffffffff, x.exponent - 1, ?_, ?_, by norm_num, by omega, fun _ _ => by norm_num⟩
    · rw [magnitude_eq, halves.1, steps, power]
      push_cast
      ring
    · rw [magnitude_eq, halves.1, power]
      push_cast
      ring
  · obtain ⟨m, next⟩ := Nat.exists_eq_succ_of_ne_zero nonzero
    have steps : x.below = 2 := if_neg halves
    refine ⟨m, x.exponent, ?_, ?_, by omega, least, ?_⟩
    · rw [magnitude_eq, next, steps, zpow_exponent]
      push_cast
      ring
    · rw [magnitude, next]
    · intro canonical greater
      rcases canonical with full | last
      · omega
      · omega

theorem ofFormat_sub (nonzero : x.significand ≠ 0) :
    OfFormat (x.magnitude - 2 * x.below * x.quarter) := by
  obtain ⟨m, g, lower, -, fits, least, -⟩ := exists_predecessor nonzero
  exact ⟨m, g, fits, least, lower⟩

theorem le_sub_quarter (canonical : x.Canonical) (nonzero : x.significand ≠ 0) {v : ℚ}
    (format : OfFormat v) (less : v < x.magnitude) :
    v ≤ x.magnitude - 2 * x.below * x.quarter := by
  obtain ⟨m, g, lower, own, -, -, full⟩ := exists_predecessor nonzero
  rw [lower]
  rw [own] at less
  have positive : (0 : ℚ) < 2 ^ g := by positivity
  rcases format.exists_multiple_or_lt g with ⟨n, rfl⟩ | ⟨small, greater⟩
  · have fewer : n < m + 1 := by exact_mod_cast lt_of_mul_lt_mul_right less positive.le
    have fewer' : n ≤ m := by omega
    gcongr
  · have bound : (0x10000000000000 : ℚ) ≤ m := by exact_mod_cast full canonical greater
    calc
      v ≤ 0x10000000000000 * 2 ^ g := small.le
      _ ≤ m * 2 ^ g := by gcongr

/-! ### The interval of a double -/

/-- A number is in the interval around a double. The ends count where the significand is even. -/
def Within (x : Binary64) (q : ℚ) : Prop :=
  (x.magnitude - x.below * x.quarter < q ∨
    q = x.magnitude - x.below * x.quarter ∧ x.significand % 2 = 0) ∧
  (q < x.magnitude + 2 * x.quarter ∨ q = x.magnitude + 2 * x.quarter ∧ x.significand % 2 = 0)

theorem gap_pos : 0 < x.below * x.quarter := by
  have steps : (1 : ℚ) ≤ x.below := by exact_mod_cast x.one_le_below
  exact mul_pos (one_pos.trans_le steps) quarter_pos

theorem rounds_iff_within (canonical : x.Canonical) (nonzero : x.significand ≠ 0) {q : ℚ} :
    x.Rounds q ↔ x.Within q := by
  have positive := @quarter_pos x
  have gap := @gap_pos x
  have low : (x.magnitude - 2 * x.below * x.quarter + x.magnitude) / 2 =
      x.magnitude - x.below * x.quarter := by ring
  have high : (x.magnitude + (x.magnitude + 4 * x.quarter)) / 2 =
      x.magnitude + 2 * x.quarter := by ring
  constructor
  · intro rounds
    -- The two neighbours say where the interval ends; all others are behind them.
    constructor
    · have below := rounds _ (ofFormat_sub nonzero) (by linarith)
      rwa [midpoint_lt_iff (by linarith), low] at below
    · have above := rounds _ ofFormat_add (by linarith)
      rwa [lt_midpoint_iff (by linarith), high] at above
  · rintro ⟨lower, upper⟩ v format other
    rcases lt_or_gt_of_ne other with less | greater
    · rw [midpoint_lt_iff less]
      have next := le_sub_quarter canonical nonzero format less
      have middle : (v + x.magnitude) / 2 ≤ x.magnitude - x.below * x.quarter := by linarith
      rcases lower with inside | ⟨same, even⟩
      · exact .inl (middle.trans_lt inside)
      · rw [same]
        exact middle.lt_or_eq.imp id fun tie => ⟨tie.symm, even⟩
    · rw [lt_midpoint_iff greater]
      have next := add_quarter_le canonical format greater
      have middle : x.magnitude + 2 * x.quarter ≤ (x.magnitude + v) / 2 := by linarith
      rcases upper with inside | ⟨same, even⟩
      · exact .inl (inside.trans_le middle)
      · rw [same]
        exact middle.lt_or_eq.imp id fun tie => ⟨tie, even⟩

/-- The interval has no gaps: it holds what is between the double and a number of it. -/
theorem Within.of_le {q q' : ℚ} (within : x.Within q) (le : q ≤ q') (le' : q' ≤ x.magnitude) :
    x.Within q' := by
  have positive := @quarter_pos x
  refine ⟨?_, .inl (by linarith)⟩
  rcases within.1 with inside | ⟨same, even⟩
  · exact .inl (inside.trans_le le)
  · rw [← same]
    exact le.lt_or_eq.imp id fun tie => ⟨tie.symm, even⟩

theorem Within.of_ge {q q' : ℚ} (within : x.Within q) (le : q' ≤ q) (le' : x.magnitude ≤ q') :
    x.Within q' := by
  have gap := @gap_pos x
  refine ⟨.inl (by linarith), ?_⟩
  rcases within.2 with inside | ⟨same, even⟩
  · exact .inl (le.trans_lt inside)
  · rw [← same]
    exact le.lt_or_eq.imp id fun tie => ⟨tie, even⟩

end

/-! ### Multiples of a power of ten -/

theorem pow_toNat {b : ℚ} (nonzero : b ≠ 0) (k : ℤ) : b ^ k.toNat = b ^ k * b ^ (-k).toNat := by
  rcases le_total 0 k with nonneg | nonpos
  · have none : (-k).toNat = 0 := by omega
    rw [none, pow_zero, mul_one, ← zpow_natCast, Int.toNat_of_nonneg nonneg]
  · have none : k.toNat = 0 := by omega
    rw [none, pow_zero, ← zpow_natCast, Int.toNat_of_nonneg (by omega), ← zpow_add₀ nonzero,
      add_neg_cancel, zpow_zero]

section

variable {x : Binary64} {p : ℤ}

/-- Whole numbers that are a quarter and a power of ten at one scale. -/
structure Scale (x : Binary64) (p : ℤ) (a b : ℕ) (t : ℚ) : Prop where
  positive : 0 < t
  quarter : (a : ℚ) = x.quarter * t
  power : (b : ℚ) = 10 ^ p * t

/-- The factors by which the search makes whole numbers of quarters and of powers of ten. -/
theorem exists_scale (x : Binary64) (p : ℤ) : ∃ t,
    Scale x p (Nat.pow 10 (-p).toNat <<< (x.exponent - 2).toNat)
      (Nat.pow 10 p.toNat <<< (-(x.exponent - 2)).toNat) t := by
  refine ⟨10 ^ (-p).toNat * 2 ^ (-(x.exponent - 2)).toNat, by positivity, ?_, ?_⟩
  · have power := pow_toNat two_ne_zero (x.exponent - 2)
    rw [Nat.shiftLeft_eq, quarter]
    push_cast
    rw [Nat.pow_eq]
    push_cast
    rw [power]
    ring
  · have power := pow_toNat (by norm_num : (10 : ℚ) ≠ 0) p
    rw [Nat.shiftLeft_eq]
    push_cast
    rw [Nat.pow_eq]
    push_cast
    rw [power]
    ring

namespace Scale

variable {a b : ℕ} {t : ℚ} (scale : Scale x p a b t)

include scale

theorem multiple (c : ℕ) : ((c * b : ℕ) : ℚ) = c * 10 ^ p * t := by
  rw [Nat.cast_mul, scale.power, mul_assoc]

theorem magnitude : ((4 * x.significand * a : ℕ) : ℚ) = x.magnitude * t := by
  rw [Nat.cast_mul, scale.quarter, magnitude_eq]
  push_cast
  ring

theorem low (nonzero : x.significand ≠ 0) : (((4 * x.significand - x.below) * a : ℕ) : ℚ) =
    (x.magnitude - x.below * x.quarter) * t := by
  have fits : x.below ≤ 4 * x.significand := by
    have := x.below_le
    omega
  rw [Nat.cast_mul, Nat.cast_sub fits, scale.quarter, magnitude_eq]
  push_cast
  ring

theorem high : (((4 * x.significand + 2) * a : ℕ) : ℚ) = (x.magnitude + 2 * x.quarter) * t := by
  rw [Nat.cast_mul, scale.quarter, magnitude_eq]
  push_cast
  ring

theorem lt_iff {l r : ℕ} {q q' : ℚ} (left : (l : ℚ) = q * t) (right : (r : ℚ) = q' * t) :
    l < r ↔ q < q' := by
  rw [← @Nat.cast_lt ℚ, left, right, mul_lt_mul_iff_left₀ scale.positive]

open Classical in
/-- The test of the search for the interval. -/
theorem inside_eq (nonzero : x.significand ≠ 0) (c : ℕ) :
    (if x.significand % 2 = 0 then
      decide ((4 * x.significand - x.below) * a ≤ c * b) &&
        decide (c * b ≤ (4 * x.significand + 2) * a)
    else
      decide ((4 * x.significand - x.below) * a < c * b) &&
        decide (c * b < (4 * x.significand + 2) * a)) = decide (x.Within (c * 10 ^ p)) := by
  have low := scale.low nonzero
  have multiple := scale.multiple c
  rw [Bool.eq_iff_iff, decide_eq_true_iff, Within]
  split
  · next even =>
    simp only [even, and_true, Bool.and_eq_true, decide_eq_true_iff, ← not_lt,
      scale.lt_iff multiple low, scale.lt_iff scale.high multiple]
    rw [not_lt, not_lt, le_iff_lt_or_eq, le_iff_lt_or_eq, @eq_comm ℚ (x.magnitude - _)]
  · next odd =>
    simp only [odd, and_false, or_false, Bool.and_eq_true, decide_eq_true_iff,
      scale.lt_iff low multiple, scale.lt_iff multiple scale.high]

end Scale

/-- A multiple of `10 ^ p` is in the interval, and the others there are farther away, or as far
where it is even. -/
structure Best (x : Binary64) (p : ℤ) (c : ℕ) : Prop where
  within : x.Within (c * 10 ^ p)
  nearest : ∀ c' : ℕ, c' ≠ c → x.Within (c' * 10 ^ p) →
    |c * 10 ^ p - x.magnitude| < |c' * 10 ^ p - x.magnitude| ∨
      |c * 10 ^ p - x.magnitude| = |c' * 10 ^ p - x.magnitude| ∧ c % 2 = 0

open Classical in
/-- What the search sees on one power of ten: the two multiples next to the double. -/
theorem exists_onGrid?_eq (nonzero : x.significand ≠ 0) : ∃ c : ℕ,
    c * 10 ^ p ≤ x.magnitude ∧ x.magnitude < (c + 1 : ℕ) * 10 ^ p ∧
    x.onGrid? p =
      if x.Within (c * 10 ^ p) then
        if x.Within ((c + 1 : ℕ) * 10 ^ p) then
          if x.magnitude - c * 10 ^ p < (c + 1 : ℕ) * 10 ^ p - x.magnitude then some c
          else if (c + 1 : ℕ) * 10 ^ p - x.magnitude < x.magnitude - c * 10 ^ p then some (c + 1)
          else some (c + c % 2)
        else some c
      else if x.Within ((c + 1 : ℕ) * 10 ^ p) then some (c + 1) else none := by
  obtain ⟨t, scale⟩ := exists_scale x p
  rw [onGrid?, quarters_eq]
  dsimp only
  generalize Nat.pow 10 (-p).toNat <<< (x.exponent - 2).toNat = a at scale ⊢
  generalize Nat.pow 10 p.toNat <<< (-(x.exponent - 2)).toNat = b at scale ⊢
  have unit : 0 < b := by
    have : (0 : ℚ) < b := by
      rw [scale.power]
      exact mul_pos (by positivity) scale.positive
    exact_mod_cast this
  generalize quotient : 4 * x.significand * a / b = c
  have floor : c * b ≤ 4 * x.significand * a := quotient ▸ Nat.div_mul_le_self _ _
  have ceil : 4 * x.significand * a < (c + 1) * b :=
    (Nat.div_lt_iff_lt_mul unit).1 (by omega)
  have down : ((4 * x.significand * a - c * b : ℕ) : ℚ) = (x.magnitude - c * 10 ^ p) * t := by
    rw [Nat.cast_sub floor, scale.magnitude, scale.multiple, sub_mul]
  have up : (((c + 1) * b - 4 * x.significand * a : ℕ) : ℚ) =
      ((c + 1 : ℕ) * 10 ^ p - x.magnitude) * t := by
    rw [Nat.cast_sub ceil.le, scale.magnitude, scale.multiple, sub_mul]
  refine ⟨c, ?_, (scale.lt_iff scale.magnitude (scale.multiple _)).1 ceil, ?_⟩
  · apply not_lt.1
    intro above
    exact Nat.not_lt.2 floor ((scale.lt_iff scale.magnitude (scale.multiple c)).2 above)
  · simp only [scale.inside_eq nonzero, scale.lt_iff down up, scale.lt_iff up down]
    by_cases first : x.Within (c * 10 ^ p) <;> by_cases second : x.Within ((c + 1 : ℕ) * 10 ^ p)
    all_goals simp only [first, second, decide_true, decide_false, if_true, if_false]

/-- A multiple in the interval has the multiple next to the double on its side in the interval too. -/
theorem within_next {c : ℕ} (floor : c * 10 ^ p ≤ x.magnitude)
    (ceil : x.magnitude < (c + 1 : ℕ) * 10 ^ p) {c' : ℕ} (within : x.Within (c' * 10 ^ p)) :
    c' ≤ c ∧ x.Within (c * 10 ^ p) ∨ c + 1 ≤ c' ∧ x.Within ((c + 1 : ℕ) * 10 ^ p) := by
  rcases Nat.lt_or_ge c c' with above | below
  · refine .inr ⟨above, within.of_ge ?_ ceil.le⟩
    gcongr
    exact above
  · refine .inl ⟨below, within.of_le ?_ floor⟩
    gcongr

theorem not_within_of_onGrid? (nonzero : x.significand ≠ 0) (none : x.onGrid? p = none) (c' : ℕ) :
    ¬x.Within (c' * 10 ^ p) := by
  intro within
  obtain ⟨c, floor, ceil, search⟩ := @exists_onGrid?_eq x p nonzero
  rw [none] at search
  rcases within_next floor ceil within with ⟨-, first⟩ | ⟨-, second⟩
  · rw [if_pos first] at search
    split at search
    · split at search
      · cases search
      · split at search <;> cases search
    · cases search
  · rw [if_pos second, if_pos second] at search
    split at search
    · split at search
      · cases search
      · split at search <;> cases search
    · cases search

theorem distance_of_le {c : ℕ} (floor : c * 10 ^ p ≤ x.magnitude) {c' : ℕ} (le : c' ≤ c) :
    |c' * 10 ^ p - x.magnitude| = x.magnitude - c' * 10 ^ p := by
  have power : (c' : ℚ) * 10 ^ p ≤ c * 10 ^ p := by gcongr
  rw [abs_of_nonpos (by linarith), neg_sub]

theorem distance_of_ge {c : ℕ} (ceil : x.magnitude < (c + 1 : ℕ) * 10 ^ p) {c' : ℕ}
    (ge : c + 1 ≤ c') : |c' * 10 ^ p - x.magnitude| = c' * 10 ^ p - x.magnitude := by
  have power : ((c + 1 : ℕ) : ℚ) * 10 ^ p ≤ c' * 10 ^ p := by gcongr
  rw [abs_of_nonneg (by linarith)]

section

variable {c : ℕ} (floor : c * 10 ^ p ≤ x.magnitude) (ceil : x.magnitude < (c + 1 : ℕ) * 10 ^ p)

include floor ceil

theorem best_floor (first : x.Within (c * 10 ^ p))
    (nearer : x.Within ((c + 1 : ℕ) * 10 ^ p) →
      x.magnitude - c * 10 ^ p < (c + 1 : ℕ) * 10 ^ p - x.magnitude ∨
        x.magnitude - c * 10 ^ p = (c + 1 : ℕ) * 10 ^ p - x.magnitude ∧ c % 2 = 0) :
    Best x p c := by
  refine ⟨first, ?_⟩
  intro c' other within
  rw [distance_of_le floor le_rfl]
  rcases within_next floor ceil within with ⟨le, -⟩ | ⟨ge, second⟩
  · have less : c' < c := lt_of_le_of_ne le other
    have power : (c' : ℚ) * 10 ^ p < c * 10 ^ p := by gcongr
    rw [distance_of_le floor le]
    exact .inl (by linarith)
  · have power : ((c + 1 : ℕ) : ℚ) * 10 ^ p ≤ c' * 10 ^ p := by gcongr
    rw [distance_of_ge ceil ge]
    rcases nearer second with strictly | ⟨tie, even⟩
    · exact .inl (by linarith)
    · rcases power.lt_or_eq with farther | same
      · exact .inl (by linarith)
      · exact .inr ⟨by linarith, even⟩

theorem best_ceil (second : x.Within ((c + 1 : ℕ) * 10 ^ p))
    (nearer : x.Within (c * 10 ^ p) →
      (c + 1 : ℕ) * 10 ^ p - x.magnitude < x.magnitude - c * 10 ^ p ∨
        (c + 1 : ℕ) * 10 ^ p - x.magnitude = x.magnitude - c * 10 ^ p ∧ (c + 1) % 2 = 0) :
    Best x p (c + 1) := by
  refine ⟨second, ?_⟩
  intro c' other within
  rw [distance_of_ge ceil le_rfl]
  rcases within_next floor ceil within with ⟨le, first⟩ | ⟨ge, -⟩
  · have power : (c' : ℚ) * 10 ^ p ≤ c * 10 ^ p := by gcongr
    rw [distance_of_le floor le]
    rcases nearer first with strictly | ⟨tie, even⟩
    · exact .inl (by linarith)
    · rcases power.lt_or_eq with farther | same
      · exact .inl (by linarith)
      · exact .inr ⟨by linarith, even⟩
  · have greater : c + 1 < c' := lt_of_le_of_ne ge (Ne.symm other)
    have power : ((c + 1 : ℕ) : ℚ) * 10 ^ p < c' * 10 ^ p := by gcongr
    rw [distance_of_ge ceil ge]
    exact .inl (by linarith)

end

theorem best_of_onGrid? (nonzero : x.significand ≠ 0) {c' : ℕ} (found : x.onGrid? p = some c') :
    Best x p c' := by
  obtain ⟨c, floor, ceil, search⟩ := @exists_onGrid?_eq x p nonzero
  rw [found] at search
  split at search
  · next first =>
    split at search
    · next second =>
      split at search
      · next down =>
        cases search
        exact best_floor floor ceil first fun _ => .inl down
      · next notDown =>
        split at search
        · next up =>
          cases search
          exact best_ceil floor ceil second fun _ => .inl up
        · next notUp =>
          have tie : x.magnitude - c * 10 ^ p = (c + 1 : ℕ) * 10 ^ p - x.magnitude :=
            le_antisymm (not_lt.1 notUp) (not_lt.1 notDown)
          cases search
          rcases Nat.mod_two_eq_zero_or_one c with even | odd
          · rw [even, Nat.add_zero]
            exact best_floor floor ceil first fun _ => .inr ⟨tie, even⟩
          · rw [odd]
            exact best_ceil floor ceil second fun _ => .inr ⟨tie.symm, by omega⟩
    · next notSecond =>
      cases search
      exact best_floor floor ceil first fun second => absurd second notSecond
  · next notFirst =>
    split at search
    · next second =>
      cases search
      exact best_ceil floor ceil second fun first => absurd first notFirst
    · cases search

end

/-! ### Where the search starts and ends -/

theorem zpow_le_zpow_of_pow {a b : ℚ} {m n : ℕ} (positive : 0 < a) (above : 1 < b)
    (nonzero : m ≠ 0) (bound : a ^ m ≤ b ^ n) {l k : ℤ} (nonneg : 0 ≤ l) (le : n * l ≤ m * k) :
    a ^ l ≤ b ^ k := by
  have positive' : 0 < b := one_pos.trans above
  rw [← pow_le_pow_iff_left₀ (by positivity) (by positivity) nonzero]
  calc
    (a ^ l) ^ m = (a ^ m) ^ l := by rw [← zpow_natCast, ← zpow_natCast, zpow_comm]
    _ ≤ (b ^ n) ^ l := zpow_le_zpow_left₀ nonneg (by positivity) bound
    _ = b ^ (n * l) := by rw [← zpow_natCast, ← zpow_mul]
    _ ≤ b ^ (m * k) := zpow_le_zpow_right₀ above.le le
    _ = (b ^ k) ^ m := by rw [← zpow_natCast, ← zpow_mul, mul_comm]

/-- Between powers of two and of ten: `10 ^ 59 < 2 ^ 196` and `2 ^ 93 < 10 ^ 28`. -/
theorem two_zpow_le {l k : ℤ} (le : 28 * l ≤ 93 * k) (le' : 59 * l ≤ 196 * k) :
    (2 : ℚ) ^ l ≤ 10 ^ k := by
  rcases le_total 0 l with nonneg | nonpos
  · exact @zpow_le_zpow_of_pow 2 10 93 28 (by norm_num) (by norm_num) (by decide) (by norm_num) l k
      nonneg le
  · rcases le_total 0 k with nonneg | negative
    · calc
        (2 : ℚ) ^ l ≤ 1 := zpow_le_one_of_nonpos₀ (by norm_num) nonpos
        _ ≤ 10 ^ k := one_le_zpow₀ (by norm_num) nonneg
    · have inverse := @zpow_le_zpow_of_pow 10 2 59 196 (by norm_num) (by norm_num) (by decide)
        (by norm_num) (-k) (-l) (by omega) (by push_cast; omega)
      rwa [zpow_neg, zpow_neg, inv_le_inv₀ (by positivity) (by positivity)] at inverse

theorem le_two_zpow {l k : ℤ} (le : 93 * k ≤ 28 * l) (le' : 196 * k ≤ 59 * l) :
    (10 : ℚ) ^ k ≤ 2 ^ l := by
  rcases le_total 0 k with nonneg | nonpos
  · exact @zpow_le_zpow_of_pow 10 2 59 196 (by norm_num) (by norm_num) (by decide) (by norm_num) k l
      nonneg le'
  · rcases le_total 0 l with nonneg | negative
    · calc
        (10 : ℚ) ^ k ≤ 1 := zpow_le_one_of_nonpos₀ (by norm_num) nonpos
        _ ≤ 2 ^ l := one_le_zpow₀ (by norm_num) nonneg
    · have inverse := @zpow_le_zpow_of_pow 2 10 93 28 (by norm_num) (by norm_num) (by decide)
        (by norm_num) (-l) (-k) (by omega) (by push_cast; omega)
      rwa [zpow_neg, zpow_neg, inv_le_inv₀ (by positivity) (by positivity)] at inverse

section

variable {x : Binary64}

/-- The exponent of a power of two above a double. -/
def bits (x : Binary64) : ℤ := x.significand.log2 + 1 + x.exponent

theorem topPlace_eq : x.topPlace = (x.bits * 1233) / 4096 + 1 := by
  rw [topPlace, bits, Int.fdiv_eq_ediv_of_nonneg _ (by norm_num)]

theorem bits_bounds : -1073 ≤ x.bits ∧ x.bits ≤ 1024 ∧ x.bits - 53 ≤ x.exponent := by
  have least := x.exponent_ge
  have greatest := x.exponent_le
  have log : x.significand.log2 < 53 := by
    rcases Nat.eq_zero_or_pos x.significand with zero | positive
    · rw [zero]
      decide
    · exact (Nat.log2_lt positive.ne').2 x.significand_lt
  unfold bits
  omega

theorem end_lt_two_zpow : x.magnitude + 2 * x.quarter < 2 ^ x.bits := by
  have positive := @quarter_pos x
  have bound : ((x.significand + 1 : ℕ) : ℚ) ≤ (2 ^ (x.significand.log2 + 1) : ℕ) := by
    exact_mod_cast Nat.lt_log2_self
  calc
    x.magnitude + 2 * x.quarter < (x.significand + 1 : ℕ) * (4 * x.quarter) := by
      rw [magnitude_eq]
      push_cast
      linarith
    _ ≤ (2 ^ (x.significand.log2 + 1) : ℕ) * (4 * x.quarter) := by gcongr
    _ = 2 ^ x.bits := by
      rw [← zpow_exponent, bits, zpow_add₀ two_ne_zero]
      congr 1
      push_cast
      rw [← zpow_natCast]
      push_cast
      rfl

theorem lt_of_within {q : ℚ} (nonzero : x.significand ≠ 0) (within : x.Within q) : 0 < q := by
  have positive := @quarter_pos x
  have digits : (1 : ℚ) ≤ x.significand := by exact_mod_cast Nat.pos_of_ne_zero nonzero
  have steps : (x.below : ℚ) ≤ 2 := by exact_mod_cast x.below_le
  have low : 0 < x.magnitude - x.below * x.quarter := by
    rw [magnitude_eq]
    nlinarith
  rcases within.1 with inside | ⟨same, -⟩
  · exact low.trans inside
  · rw [same]
    exact low

/-- No multiple of a power of ten above the first place is in the interval. -/
theorem not_within_of_topPlace_lt (nonzero : x.significand ≠ 0) {p : ℤ} (above : x.topPlace < p)
    (c : ℕ) : ¬x.Within (c * 10 ^ p) := by
  intro within
  have digit : c ≠ 0 := by
    rintro rfl
    have positive := lt_of_within nonzero within
    simp at positive
  have multiple : (1 : ℚ) ≤ c := by exact_mod_cast Nat.pos_of_ne_zero digit
  have upper : (c : ℚ) * 10 ^ p ≤ x.magnitude + 2 * x.quarter := by
    rcases within.2 with inside | ⟨same, -⟩
    · exact inside.le
    · exact same.le
  have power : (2 : ℚ) ^ x.bits ≤ 10 ^ p := by
    have := @bits_bounds x
    rw [topPlace_eq] at above
    apply two_zpow_le <;> omega
  have small : (10 : ℚ) ^ p < 10 ^ p := calc
    (10 : ℚ) ^ p = 1 * 10 ^ p := (one_mul _).symm
    _ ≤ c * 10 ^ p := by gcongr
    _ ≤ x.magnitude + 2 * x.quarter := upper
    _ < 2 ^ x.bits := end_lt_two_zpow
    _ ≤ 10 ^ p := power
  exact lt_irrefl _ small

/-- Twenty places from the first on there is a multiple in the interval. -/
theorem exists_within : ∃ c : ℕ, x.Within (c * 10 ^ (x.topPlace - 19)) := by
  have power : (10 : ℚ) ^ (x.topPlace - 19) ≤ x.quarter := by
    have := @bits_bounds x
    rw [topPlace_eq, quarter]
    apply le_two_zpow <;> omega
  have positive : (0 : ℚ) < 10 ^ (x.topPlace - 19) := by positivity
  have steps : x.quarter ≤ x.below * x.quarter := by
    have one : (1 : ℚ) ≤ x.below := by exact_mod_cast x.one_le_below
    exact le_mul_of_one_le_left quarter_pos.le one
  have nonneg : 0 ≤ x.magnitude / 10 ^ (x.topPlace - 19) := by
    unfold magnitude
    positivity
  refine ⟨⌊x.magnitude / 10 ^ (x.topPlace - 19)⌋₊, .inl ?_, .inl ?_⟩
  · have ceil := (div_lt_iff₀ positive).1 (Nat.lt_floor_add_one (x.magnitude / 10 ^ (x.topPlace - 19)))
    linarith
  · have floor := (le_div_iff₀ positive).1 (Nat.floor_le nonneg)
    have := @quarter_pos x
    linarith

end

/-! ### The shortest decimal -/

/-- The shortest decimal of a double has its sign and rounds to it, while no multiple of a greater
power of ten does, and among the multiples of the same power that do it is the nearest, of two at
one distance the even one. The decimal of zero is zero. -/
structure IsShortest (x : Binary64) (d : Decimal) : Prop where
  sign : d.digits < 0 ↔ x.negative = true ∧ x.significand ≠ 0
  rounds : x.Rounds (d.digits.natAbs * 10 ^ (-d.scale))
  coarsest : x.significand ≠ 0 → ∀ (c : ℕ) (p : ℤ), -d.scale < p → ¬x.Rounds (c * 10 ^ p)
  nearest : ∀ c : ℕ, c ≠ d.digits.natAbs → x.Rounds (c * 10 ^ (-d.scale)) →
    |d.digits.natAbs * 10 ^ (-d.scale) - x.magnitude| < |c * 10 ^ (-d.scale) - x.magnitude| ∨
      |d.digits.natAbs * 10 ^ (-d.scale) - x.magnitude| = |c * 10 ^ (-d.scale) - x.magnitude| ∧
        d.digits.natAbs % 2 = 0

section

variable {x : Binary64}

/-- The places that the search tries. -/
def places (x : Binary64) : List ℤ := (List.range 20).map fun i : ℕ => x.topPlace - i

theorem mem_places_iff {p : ℤ} : p ∈ x.places ↔ p ≤ x.topPlace ∧ x.topPlace - 19 ≤ p := by
  simp only [places, List.mem_map, List.mem_range]
  constructor
  · rintro ⟨i, few, rfl⟩
    omega
  · rintro ⟨le, ge⟩
    exact ⟨(x.topPlace - p).toNat, by omega, by omega⟩

theorem pairwise_places : x.places.Pairwise (· > ·) := by
  refine List.pairwise_map.2 (List.pairwise_lt_range.imp ?_)
  intro i j less
  omega

/-- The search ends at the greatest power of ten that has a multiple in the interval. -/
theorem exists_shortest_eq (nonzero : x.significand ≠ 0) : ∃ (c : ℕ) (p : ℤ),
    x.shortest = ⟨if x.negative then -(c : ℤ) else c, -p⟩ ∧ Best x p c ∧
      ∀ (c' : ℕ) (p' : ℤ), p < p' → ¬x.Within (c' * 10 ^ p') := by
  rw [shortest, if_neg nonzero]
  dsimp only
  split
  · next c p found =>
    obtain ⟨before, p', after, split, hit, misses⟩ := List.findSome?_eq_some_iff.1 found
    obtain ⟨c', best, same⟩ := Option.map_eq_some_iff.1 hit
    cases same
    refine ⟨c, p, rfl, best_of_onGrid? nonzero best, ?_⟩
    intro c' p' greater
    -- A greater power is above the first place, or has been tried before.
    by_cases above : x.topPlace < p'
    · exact not_within_of_topPlace_lt nonzero above c'
    · have order := @pairwise_places x
      have split : x.places = before ++ p :: after := split
      have last : p ∈ x.places := by rw [split]; simp
      have listed : p' ∈ x.places := by
        rw [mem_places_iff] at last ⊢
        omega
      rw [split] at order listed
      rcases List.mem_append.1 listed with earlier | later
      · exact not_within_of_onGrid? nonzero (Option.map_eq_none_iff.1 (misses p' earlier)) c'
      · have least := (List.pairwise_append.1 order).2.1
        rcases List.mem_cons.1 later with rfl | later
        · exact absurd greater (lt_irrefl _)
        · exact absurd greater (not_lt.2 ((List.pairwise_cons.1 least).1 p' later).le)
  · next missed =>
    have listed : x.topPlace - 19 ∈ x.places := mem_places_iff.2 ⟨by omega, le_rfl⟩
    have missed := List.findSome?_eq_none_iff.1 missed _ listed
    obtain ⟨c, within⟩ := @exists_within x
    exact absurd within (not_within_of_onGrid? nonzero (Option.map_eq_none_iff.1 missed) c)

/-- A double stands for its shortest decimal. -/
theorem isShortest_shortest (canonical : x.Canonical) : x.IsShortest x.shortest := by
  by_cases zero : x.significand = 0
  · have magnitude : x.magnitude = 0 := by simp [magnitude, zero]
    have shortest : x.shortest = ⟨0, 0⟩ := if_pos zero
    rw [shortest]
    refine ⟨by simp [zero], ?_, fun nonzero => absurd zero nonzero, ?_⟩
    · intro v format other
      rw [magnitude] at other ⊢
      exact .inl (by simp [other])
    · intro c other rounds
      refine .inl ?_
      have positive : 0 < c := Nat.pos_of_ne_zero other
      simp [magnitude, positive]
  · obtain ⟨c, p, shortest, best, misses⟩ := exists_shortest_eq zero
    have digits : (if x.negative then -(c : ℤ) else c).natAbs = c := by
      split <;> simp
    have digit : c ≠ 0 := by
      rintro rfl
      have positive := lt_of_within zero best.within
      simp at positive
    rw [shortest]
    refine ⟨?_, ?_, ?_, ?_⟩
    · dsimp only
      split
      · next negative => simp [negative, zero]; omega
      · next positive => simp [positive]
    · dsimp only
      rw [digits, neg_neg, rounds_iff_within canonical zero]
      exact best.within
    · intro _ c' p' greater
      rw [rounds_iff_within canonical zero]
      exact misses c' p' (by simpa using greater)
    · dsimp only
      rw [digits, neg_neg]
      intro c' other rounds
      exact best.nearest c' other ((rounds_iff_within canonical zero).1 rounds)

-- The double nearest to a tenth stands for a tenth.
example : (ofDigits? false 1 1).map shortest = some ⟨1, 1⟩ := rfl

-- The numeral 1e-24 is not read as the double nearest to it.
example : (ofNumeral? ⟨false, ['1'], [], some (true, ['2', '4'])⟩).map shortest =
    some ⟨10000000000000001, 40⟩ := by decide +kernel

end

end Binary64

end HalfBinary
