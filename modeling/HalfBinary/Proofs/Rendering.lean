import Mathlib
import HalfBinary.Proofs.Decimals
import HalfBinary.Proofs.Spelling

/-!
# Rendered literals

The text of a literal is a spelling of a literal of the same value (`spelling_chars`). It is the
literal itself, but for decimals that are rendered without fraction and power of ten: these are read
as whole numbers, which have the same text again.
-/

namespace HalfBinary

/-! ### Digits of whole numbers -/

theorem digits_toDigits (n : Nat) : Numeral.Digits (Nat.toDigits 10 n) :=
  ⟨Nat.toDigits_ne_nil, fun _ mem => Nat.isDigit_of_mem_toDigits (by decide) (by decide) mem⟩

theorem toDigits_mul_pow {n : Nat} (positive : 0 < n) (k : Nat) :
    Nat.toDigits 10 (n * 10 ^ k) = Nat.toDigits 10 n ++ List.replicate k '0' := by
  induction k with
  | zero => simp
  | succ k ih =>
    have some : 0 < n * 10 ^ k := by positivity
    have step := Nat.toDigits_append_toDigits (b := 10) (n := n * 10 ^ k) (d := 0) (by decide) some
      (by decide)
    have shifted : 10 * (n * 10 ^ k) + 0 = n * 10 ^ (k + 1) := by ring
    rw [shifted, ih, Nat.toDigits_zero] at step
    rw [← step, List.append_assoc, List.replicate_succ']

theorem signed_eq (v : Int) :
    Text.signed v = Numeral.signChars (decide (v < 0)) ++ Nat.toDigits 10 v.natAbs := by
  unfold Text.signed Numeral.signChars
  by_cases negative : v < 0 <;> simp [negative]

namespace Numeral

/-- A numeral of the digits of a number, wherever the point is, holds that number. -/
theorem digits_eq_of_magnitude {n : Numeral} {v : Int} (sign : n.negative = decide (v < 0))
    (magnitude : Nat.ofDigitChars 10 (n.whole ++ n.fraction) 0 = v.natAbs) : n.digits = v := by
  rw [digits, magnitude, sign]
  by_cases negative : v < 0
  · simp only [negative, decide_true, if_true]
    omega
  · simp only [negative, decide_false, Bool.false_eq_true, if_false]
    omega

/-- The numeral of a whole number. -/
def ofInt (v : Int) : Numeral := ⟨decide (v < 0), Nat.toDigits 10 v.natAbs, [], none⟩

theorem spelling_ofInt (v : Int) : Spelling (Text.signed v) (ofInt v) :=
  ⟨digits_toDigits _, .inl rfl, [], .absent, by simp [signed_eq, ofInt, fractionChars]⟩

theorem digits_ofInt (v : Int) : (ofInt v).digits = v :=
  digits_eq_of_magnitude rfl (by simp [ofInt, Nat.ofDigitChars_ten_toDigits])

end Numeral

namespace Decimal

/-! ### Decimals without fraction and power of ten -/

/-- The text has neither a fraction nor a power of ten. -/
def RendersWhole (d : Decimal) : Prop := d.digits = 0 ∨ (-15 ≤ d.scale ∧ d.scale ≤ 0)

instance (d : Decimal) : Decidable d.RendersWhole := inferInstanceAs (Decidable (_ ∨ _))

/-- The whole number that stands in the text. -/
def wholeValue (d : Decimal) : Int := d.digits * 10 ^ (-d.scale).toNat

theorem render_eq (d : Decimal) :
    d.render = Numeral.signChars (decide (d.digits < 0)) ++
      renderDigits (Nat.toDigits 10 d.digits.natAbs) (if d.digits = 0 then 0 else d.scale) := by
  unfold render Numeral.signChars
  by_cases negative : d.digits < 0 <;> simp [negative]

theorem render_of_rendersWhole {d : Decimal} (whole : d.RendersWhole) :
    d.render = Text.signed d.wholeValue := by
  by_cases zero : d.digits = 0
  · simp [render_eq, signed_eq, wholeValue, zero, renderDigits, layout, plain]
  · obtain ⟨low, high⟩ := whole.resolve_left zero
    have sign : decide (d.wholeValue < 0) = decide (d.digits < 0) := by
      have power : (0 : Int) < 10 ^ (-d.scale).toNat := by positivity
      rw [decide_eq_decide, wholeValue, mul_neg_iff]
      simp [power, not_lt.2 power.le]
    have magnitude : d.wholeValue.natAbs = d.digits.natAbs * 10 ^ (-d.scale).toNat := by
      rw [wholeValue, Int.natAbs_mul, Int.natAbs_pow]
      rfl
    have positive : 0 < d.digits.natAbs := Int.natAbs_pos.2 zero
    have layout' : layout (Nat.toDigits 10 d.digits.natAbs).length d.scale = .plain := by
      rw [layout, if_neg (by omega), if_neg (by omega)]
    rw [render_eq, signed_eq, sign, magnitude, toDigits_mul_pow positive, if_neg zero, renderDigits,
      layout']
    simp [plain, high]

theorem toRat_of_rendersWhole {d : Decimal} (whole : d.RendersWhole) : d.toRat = d.wholeValue := by
  by_cases zero : d.digits = 0
  · simp [toRat, wholeValue, zero]
  · obtain ⟨-, high⟩ := whole.resolve_left zero
    have power : (10 : ℚ) ^ (-d.scale) = 10 ^ (-d.scale).toNat := by
      rw [← zpow_natCast, Int.toNat_of_nonneg (by omega)]
    rw [toRat, wholeValue, power, Int.cast_mul, Int.cast_pow]
    rfl

/-! ### Decimals with a fraction or a power of ten -/

/-- The text of a decimal spells its digits and its scale. -/
def Faithful (d : Decimal) : Prop :=
  ∃ n : Numeral, n.Spelling d.render ∧ n.isWhole = false ∧ n.digits = d.digits ∧ n.scale = d.scale

theorem digits_take {ds : List Char} (digits : Numeral.Digits ds) {k : Nat} (some : 0 < k) :
    Numeral.Digits (ds.take k) := by
  refine ⟨fun empty => ?_, fun c mem => digits.2 c (List.mem_of_mem_take mem)⟩
  rcases List.take_eq_nil_iff.1 empty with zero | none
  · omega
  · exact digits.1 none

theorem digits_drop {ds : List Char} (digits : Numeral.Digits ds) {k : Nat} (less : k < ds.length) :
    Numeral.Digits (ds.drop k) := by
  refine ⟨fun empty => ?_, fun c mem => digits.2 c (List.mem_of_mem_drop mem)⟩
  have := List.drop_eq_nil_iff.1 empty
  omega

theorem ofDigitChars_take_drop (n k : Nat) :
    Nat.ofDigitChars 10 ((Nat.toDigits 10 n).take k ++ (Nat.toDigits 10 n).drop k) 0 = n := by
  rw [List.take_append_drop, Nat.ofDigitChars_ten_toDigits]

/-- A point among the digits. -/
theorem faithful_of_point_inside {d : Decimal} (nonzero : d.digits ≠ 0) (positive : 0 < d.scale)
    (inside : d.scale.toNat < (Nat.toDigits 10 d.digits.natAbs).length) : d.Faithful := by
  have digits := digits_toDigits d.digits.natAbs
  have magnitude := ofDigitChars_take_drop d.digits.natAbs
  rw [Faithful, render_eq, if_neg nonzero]
  generalize Nat.toDigits 10 d.digits.natAbs = ds at *
  have layout' : layout ds.length d.scale = .plain := by
    rw [layout, if_neg (by omega), if_neg (by omega)]
  have fraction := digits_drop digits (k := ds.length - d.scale.toNat) (by omega)
  have some : (ds.drop (ds.length - d.scale.toNat)).isEmpty = false := by simpa using fraction.1
  refine ⟨⟨decide (d.digits < 0), ds.take (ds.length - d.scale.toNat),
    ds.drop (ds.length - d.scale.toNat), none⟩, ⟨?_, .inr fraction, [], .absent, ?_⟩, ?_, ?_, ?_⟩
  · exact digits_take digits (by omega)
  · rw [renderDigits, layout', Numeral.fractionChars, some]
    simp [plain, not_le.2 positive, inside]
  · rw [Numeral.isWhole, some]
    rfl
  · exact Numeral.digits_eq_of_magnitude rfl (magnitude _)
  · simp only [Numeral.scale, Numeral.power, List.length_drop]
    omega

/-- A point before all digits. -/
theorem faithful_of_point_before {d : Decimal} (nonzero : d.digits ≠ 0) (positive : 0 < d.scale)
    (before : (Nat.toDigits 10 d.digits.natAbs).length ≤ d.scale.toNat)
    (near : d.scale - (Nat.toDigits 10 d.digits.natAbs).length ≤ 5) : d.Faithful := by
  have digits := digits_toDigits d.digits.natAbs
  have magnitude := @Nat.ofDigitChars_ten_toDigits d.digits.natAbs
  rw [Faithful, render_eq, if_neg nonzero]
  generalize Nat.toDigits 10 d.digits.natAbs = ds at *
  have layout' : layout ds.length d.scale = .plain := by
    rw [layout, if_neg (by omega), if_neg (by omega)]
  let zeros := List.replicate (d.scale.toNat - ds.length) '0'
  -- The zeros after the point are read as digits of the fraction, which do not change the number.
  refine ⟨⟨decide (d.digits < 0), ['0'], zeros ++ ds, none⟩, ⟨?_, .inr ?_, [], .absent, ?_⟩, ?_, ?_,
    ?_⟩
  · exact ⟨by simp, by simp⟩
  · refine ⟨by simp [digits.1], fun c mem => ?_⟩
    rcases List.mem_append.1 mem with zero | digit
    · obtain rfl := List.eq_of_mem_replicate zero
      rfl
    · exact digits.2 c digit
  · rw [renderDigits, layout']
    simp [plain, not_le.2 positive, not_lt.2 before, Numeral.fractionChars, digits.1, zeros]
  · simp [Numeral.isWhole, digits.1]
  · refine Numeral.digits_eq_of_magnitude rfl ?_
    rw [← magnitude]
    simp [zeros, Nat.ofDigitChars_append, Nat.ofDigitChars_replicate_zero, Nat.ofDigitChars_cons]
  · simp only [Numeral.scale, Numeral.power, List.length_append, zeros, List.length_replicate]
    omega

/-- One digit before the point and a power of ten. -/
theorem faithful_of_scientific {d : Decimal} (nonzero : d.digits ≠ 0) (positive : 0 < d.scale)
    (far : 5 < d.scale - (Nat.toDigits 10 d.digits.natAbs).length) : d.Faithful := by
  have digits := digits_toDigits d.digits.natAbs
  have magnitude := ofDigitChars_take_drop d.digits.natAbs
  rw [Faithful, render_eq, if_neg nonzero]
  generalize Nat.toDigits 10 d.digits.natAbs = ds at *
  have layout' : layout ds.length d.scale = .scientific := by
    rw [layout, if_pos (by omega)]
  have some : 0 < ds.length := List.length_pos_iff.2 digits.1
  let power : Int := ds.length - 1 - d.scale
  have negative : power < 0 := by omega
  refine ⟨⟨decide (d.digits < 0), ds.take 1, ds.drop 1,
    Option.some (true, Nat.toDigits 10 power.natAbs)⟩,
    ⟨digits_take digits (by decide), ?_,
      'E' :: ['-'] ++ Nat.toDigits 10 power.natAbs, ?_, ?_⟩, ?_, ?_, ?_⟩
  · rcases Nat.lt_or_ge 1 ds.length with more | one
    · exact .inr (digits_drop digits more)
    · exact .inl (List.drop_eq_nil_iff.2 one)
  · exact .written (.inr rfl) (.inr (.inr rfl)) (digits_toDigits _)
  · have signed' : Text.signed (ds.length - 1 - d.scale) =
        '-' :: Nat.toDigits 10 power.natAbs := by
      rw [Text.signed, if_pos negative]
    rw [renderDigits, layout']
    simp [signed', Numeral.fractionChars]
  · simp [Numeral.isWhole]
  · exact Numeral.digits_eq_of_magnitude rfl (magnitude 1)
  · simp only [Numeral.scale, Numeral.power, List.length_drop, Nat.ofDigitChars_ten_toDigits, if_true]
    omega

/-- All digits and a power of ten. -/
theorem faithful_of_raised {d : Decimal} (nonzero : d.digits ≠ 0) (far : d.scale < -15) :
    d.Faithful := by
  have digits := digits_toDigits d.digits.natAbs
  have magnitude := @Nat.ofDigitChars_ten_toDigits d.digits.natAbs
  rw [Faithful, render_eq, if_neg nonzero]
  generalize Nat.toDigits 10 d.digits.natAbs = ds at *
  have layout' : layout ds.length d.scale = .raised := by
    rw [layout, if_neg (by omega), if_pos far]
  refine ⟨⟨decide (d.digits < 0), ds, [], Option.some (false, Nat.toDigits 10 (-d.scale).natAbs)⟩,
    ⟨digits, .inl rfl, 'e' :: ['+'] ++ Nat.toDigits 10 (-d.scale).natAbs, ?_, ?_⟩, rfl, ?_, ?_⟩
  · exact .written (.inl rfl) (.inr (.inl rfl)) (digits_toDigits _)
  · have signed' : Text.signed (-d.scale) = Nat.toDigits 10 (-d.scale).natAbs := by
      rw [Text.signed, if_neg (by omega)]
    rw [renderDigits, layout', signed']
    simp [Numeral.fractionChars]
  · exact Numeral.digits_eq_of_magnitude rfl (by simpa using magnitude)
  · simp only [Numeral.scale, Numeral.power, List.length_nil, Nat.ofDigitChars_ten_toDigits,
      Bool.false_eq_true, if_false]
    omega

theorem faithful_of_not_rendersWhole {d : Decimal} (other : ¬ d.RendersWhole) : d.Faithful := by
  obtain ⟨nonzero, range⟩ := not_or.1 other
  rcases lt_or_ge 0 d.scale with positive | nonpositive
  · rcases lt_or_ge 5 (d.scale - (Nat.toDigits 10 d.digits.natAbs).length) with far | near
    · exact faithful_of_scientific nonzero positive far
    · rcases Nat.lt_or_ge d.scale.toNat (Nat.toDigits 10 d.digits.natAbs).length with inside | before
      · exact faithful_of_point_inside nonzero positive inside
      · exact faithful_of_point_before nonzero positive before near
  · exact faithful_of_raised nonzero (by omega)

end Decimal

namespace Literal

/-! ### Literals as they are read again -/

/-- The literal of a whole number: an integer if it fits a signed 64-bit word. -/
def ofWhole (v : Int) : Literal :=
  if -0x8000000000000000 ≤ v ∧ v < 0x8000000000000000 then integer v else decimal (.ofInt v)

/-- The literal that the text of a literal is read as. -/
def reread : Literal → Literal
  | decimal d => if d.RendersWhole then ofWhole d.wholeValue else decimal d
  | null => null
  | boolean b => boolean b
  | integer v => integer v
  | text s => text s

/-- The literals that a clause may hold. -/
def InRange : Literal → Prop
  | integer v => -0x8000000000000000 ≤ v ∧ v < 0x8000000000000000
  | decimal d => -0x8000000000000000 ≤ d.scale ∧ d.scale < 0x8000000000000000
  | null | boolean _ | text _ => True

/-- Literals that are equal, numbers by value. -/
def Same (l l' : Literal) : Prop := l = l' ∨ ∃ q, l.toRat? = some q ∧ l'.toRat? = some q

theorem toRat?_ofWhole (v : Int) : (ofWhole v).toRat? = some (v : ℚ) := by
  unfold ofWhole
  split
  · rfl
  · rw [toRat?, Decimal.toRat_ofInt]

theorem chars_decimal (d : Decimal) : (decimal d).chars = d.render := rfl

theorem chars_ofWhole (v : Int) : (ofWhole v).chars = Text.signed v := by
  unfold ofWhole
  split
  · rfl
  · have whole : (Decimal.ofInt v).RendersWhole := .inr (by simp [Decimal.ofInt])
    rw [chars_decimal, Decimal.render_of_rendersWhole whole]
    simp [Decimal.wholeValue, Decimal.ofInt]

theorem ofNumeral?_ofInt (v : Int) : ofNumeral? (.ofInt v) = some (ofWhole v) := by
  have whole : (Numeral.ofInt v).isWhole = true := rfl
  have scale : (Numeral.ofInt v).scale = 0 := rfl
  unfold ofNumeral? ofWhole
  rw [Numeral.digits_ofInt, whole]
  split
  · next range => rw [if_pos range.2]
  · next range =>
    rw [if_neg fun range' => range ⟨rfl, range'⟩, Decimal.ofNumeral?, scale, Numeral.digits_ofInt]
    rfl

theorem same_reread (l : Literal) : l.Same l.reread := by
  cases l with
  | null | boolean _ | integer _ | text _ => exact .inl rfl
  | decimal d =>
    rw [reread]
    split
    · next whole =>
      refine .inr ⟨d.wholeValue, ?_, toRat?_ofWhole _⟩
      rw [toRat?, Decimal.toRat_of_rendersWhole whole]
    · exact .inl rfl

/-- A literal that is read again has the same text. -/
theorem chars_reread (l : Literal) : l.reread.chars = l.chars := by
  cases l with
  | null | boolean _ | integer _ | text _ => rfl
  | decimal d =>
    rw [reread]
    split
    · next whole => rw [chars_ofWhole, chars_decimal, Decimal.render_of_rendersWhole whole]
    · rfl

theorem quoted_escapeChar (cs : List Char) : Token.Quoted '"' (cs.flatMap escapeChar) cs := by
  induction cs with
  | nil => exact .nil
  | cons c cs ih =>
    rw [List.flatMap_cons]
    unfold escapeChar
    split
    · exact .escape rfl ih
    · exact .escape rfl ih
    · exact .escape rfl ih
    · exact .escape rfl ih
    · exact .escape rfl ih
    · next quote backslash _ _ _ => exact .plain quote backslash ih

/-- The text of a literal spells the literal that it is read as. -/
theorem spelling_chars {l : Literal} (range : l.InRange) :
    ∃ more, Token.Spelling l.chars (.literal l.reread) more := by
  cases l with
  | null => exact ⟨_, @Token.Spelling.word "null".toList [] rfl (List.forall_mem_nil _)⟩
  | boolean b =>
    cases b with
    | true => exact ⟨_, @Token.Spelling.word "true".toList [] rfl (List.forall_mem_nil _)⟩
    | false => exact ⟨_, @Token.Spelling.word "false".toList [] rfl (List.forall_mem_nil _)⟩
  | integer v =>
    have range : -0x8000000000000000 ≤ v ∧ v < 0x8000000000000000 := range
    have value := ofNumeral?_ofInt v
    rw [ofWhole, if_pos range] at value
    exact ⟨_, .number (Numeral.spelling_ofInt v) value⟩
  | decimal d =>
    rw [reread]
    split
    · next whole =>
      rw [chars_decimal, Decimal.render_of_rendersWhole whole]
      exact ⟨_, .number (Numeral.spelling_ofInt _) (ofNumeral?_ofInt _)⟩
    · next other =>
      obtain ⟨n, spelled, notWhole, digits, scale⟩ := Decimal.faithful_of_not_rendersWhole other
      have range : -0x8000000000000000 ≤ d.scale ∧ d.scale < 0x8000000000000000 := range
      refine ⟨_, .number spelled ?_⟩
      rw [ofNumeral?, if_neg (by simp [notWhole]), Decimal.ofNumeral?, digits, scale, if_pos range]
      rfl
  | text s =>
    have spelled := Token.Spelling.text (.inl rfl) (quoted_escapeChar s.toList)
    rw [String.ofList_toList] at spelled
    exact ⟨_, spelled⟩

theorem inRange_of_ofNumeral? {n : Numeral} {l : Literal} (value : ofNumeral? n = some l) :
    l.InRange := by
  unfold ofNumeral? at value
  split at value
  · next range =>
    cases value
    exact range.2
  · unfold Decimal.ofNumeral? at value
    split at value
    · next range =>
      cases value
      exact range
    · cases value

/-- What is read in a clause is in range. -/
theorem inRange_of_spelling {cs : List Char} {l : Literal} {more : Char → Bool} {t : Token}
    (spelled : Token.Spelling cs t more) (literal : t = .literal l) : l.InRange := by
  cases spelled with
  | openParen | closeParen | operator | connective => cases literal
  | text =>
    cases literal
    trivial
  | number _ value =>
    cases literal
    exact inRange_of_ofNumeral? value
  | @word first others =>
    unfold Token.ofWord at literal
    split at literal
    · cases literal
      trivial
    · cases literal
      trivial
    · cases literal
      trivial
    · cases literal

end Literal

end HalfBinary
