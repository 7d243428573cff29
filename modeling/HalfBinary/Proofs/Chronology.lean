import Mathlib
import HalfBinary.Proofs.Numbers

/-!
# Dates in the order of time

The order of dates is that of the days they are, counted from the first day of the year 0, and, for
dates that are written with ten characters, that of their texts (`evaluate_chronological`).
-/

namespace HalfBinary

/-- Two pairs that are in the same order compare in the same way. -/
theorem compare_eq_compare_of_lt_iff {α β : Type} [LinearOrder α] [LinearOrder β] {a b : α}
    {c d : β} (less : a < b ↔ c < d) (greater : b < a ↔ d < c) : compare a b = compare c d := by
  rcases lt_trichotomy c d with lt | eq | gt
  · rw [compare_lt_iff_lt.2 lt, compare_lt_iff_lt.2 (less.2 lt)]
  · rw [compare_eq_iff_eq.2 eq, compare_eq_iff_eq, eq_iff_le_not_lt, ← not_lt, less, greater]
    exact ⟨eq.not_gt, eq.not_lt⟩
  · rw [compare_gt_iff_gt.2 gt, compare_gt_iff_gt.2 (greater.2 gt)]

/-! ### Days of the calendar -/

namespace Calendar

theorem isLeapYear_eq_true_iff {year : Nat} :
    isLeapYear year = true ↔ year % 4 = 0 ∧ (year % 100 = 0 → year % 400 = 0) := by
  simp [isLeapYear, imp_iff_not_or]

theorem daysBeforeYear_succ (year : Nat) :
    daysBeforeYear (year + 1) = daysBeforeYear year + if isLeapYear year then 366 else 365 := by
  -- Each quotient counts the multiples below a year; the next year adds this one if it is another.
  have fourth : (year + 1 + 3) / 4 = (year + 3) / 4 + if year % 4 = 0 then 1 else 0 := by
    split <;> omega
  have century : (year + 1 + 99) / 100 = (year + 99) / 100 + if year % 100 = 0 then 1 else 0 := by
    split <;> omega
  have fourCenturies :
      (year + 1 + 399) / 400 = (year + 399) / 400 + if year % 400 = 0 then 1 else 0 := by
    split <;> omega
  have fewer : (year + 99) / 100 ≤ 365 * year + (year + 3) / 4 := by omega
  have nested : (year % 400 = 0 → year % 100 = 0) ∧ (year % 100 = 0 → year % 4 = 0) := by omega
  rw [daysBeforeYear, daysBeforeYear, fourth, century, fourCenturies]
  simp only [isLeapYear_eq_true_iff]
  generalize (year + 3) / 4 = fourths at *
  generalize (year + 99) / 100 = centuries at *
  generalize (year + 399) / 400 = cycles at *
  clear fourth century fourCenturies
  split_ifs <;> omega

/-- The months of a year fill it. -/
theorem daysBeforeMonth_thirteen (year : Nat) :
    daysBeforeMonth year 13 = if isLeapYear year then 366 else 365 := by
  simp only [daysBeforeMonth, daysInMonth]
  split <;> rfl

theorem monotone_daysBeforeYear : Monotone daysBeforeYear :=
  monotone_nat_of_le_succ fun year => by rw [daysBeforeYear_succ]; exact Nat.le_add_right _ _

theorem monotone_daysBeforeMonth (year : Nat) : Monotone (daysBeforeMonth year) :=
  monotone_nat_of_le_succ fun _ => Nat.le_add_right _ _

theorem daysInMonth_pos {year month : Nat} (pos : 1 ≤ month) (le : month ≤ 12) :
    1 ≤ daysInMonth year month := by
  interval_cases month <;> first | exact Nat.le_add_left 1 _ | skip
  rw [daysInMonth]
  split <;> decide

end Calendar

namespace Date

open Calendar

variable {a b : Date}

@[ext]
theorem eq_of_parts (year : a.year = b.year) (month : a.month = b.month) (day : a.day = b.day) :
    a = b := by
  cases a
  cases b
  cases year
  cases month
  cases day
  rfl

/-- A day is in its month. -/
theorem day_lt_of_month (d : Date) :
    daysBeforeMonth d.year d.month + (d.day - 1) < daysBeforeMonth d.year (d.month + 1) := by
  have positive := d.day_pos
  have last := d.day_le
  have succ : daysBeforeMonth d.year (d.month + 1) =
      daysBeforeMonth d.year d.month + daysInMonth d.year d.month := rfl
  omega

/-- A day is in its year. -/
theorem dayNumber_lt (d : Date) : d.dayNumber < daysBeforeYear (d.year + 1) := by
  have inMonth := d.day_lt_of_month
  have inYear := monotone_daysBeforeMonth d.year (Nat.succ_le_succ d.month_le)
  rw [Nat.succ_eq_add_one, daysBeforeMonth_thirteen] at inYear
  rw [daysBeforeYear_succ, dayNumber]
  omega

theorem daysBeforeYear_le_dayNumber (d : Date) : daysBeforeYear d.year ≤ d.dayNumber := by
  rw [dayNumber]
  omega

theorem dayNumber_lt_of_year (h : a.year < b.year) : a.dayNumber < b.dayNumber :=
  calc a.dayNumber < daysBeforeYear (a.year + 1) := a.dayNumber_lt
    _ ≤ daysBeforeYear b.year := monotone_daysBeforeYear h
    _ ≤ b.dayNumber := b.daysBeforeYear_le_dayNumber

theorem dayNumber_lt_of_month (year : a.year = b.year) (h : a.month < b.month) :
    a.dayNumber < b.dayNumber := by
  have inMonth := a.day_lt_of_month
  have later := monotone_daysBeforeMonth a.year (Nat.succ_le_of_lt h)
  rw [Nat.succ_eq_add_one] at later
  rw [dayNumber, dayNumber, ← year]
  omega

theorem dayNumber_lt_of_day (year : a.year = b.year) (month : a.month = b.month)
    (h : a.day < b.day) : a.dayNumber < b.dayNumber := by
  have positive := a.day_pos
  rw [dayNumber, dayNumber, year, month]
  omega

/-- The days are counted in the order of the calendar. -/
theorem compare_dayNumber (a b : Date) : compare a.dayNumber b.dayNumber =
    (compare a.year b.year).then ((compare a.month b.month).then (compare a.day b.day)) := by
  rcases lt_trichotomy a.year b.year with less | year | greater
  · rw [compare_lt_iff_lt.2 (dayNumber_lt_of_year less), compare_lt_iff_lt.2 less]
    rfl
  · rw [compare_eq_iff_eq.2 year, Ordering.eq_then]
    rcases lt_trichotomy a.month b.month with less | month | greater
    · rw [compare_lt_iff_lt.2 (dayNumber_lt_of_month year less), compare_lt_iff_lt.2 less]
      rfl
    · rw [compare_eq_iff_eq.2 month, Ordering.eq_then]
      rcases lt_trichotomy a.day b.day with less | day | greater
      · rw [compare_lt_iff_lt.2 (dayNumber_lt_of_day year month less), compare_lt_iff_lt.2 less]
      · rw [eq_of_parts year month day, compare_eq_iff_eq.2 rfl, compare_eq_iff_eq.2 rfl]
      · rw [compare_gt_iff_gt.2 (dayNumber_lt_of_day year.symm month.symm greater),
          compare_gt_iff_gt.2 greater]
    · rw [compare_gt_iff_gt.2 (dayNumber_lt_of_month year.symm greater),
        compare_gt_iff_gt.2 greater]
      rfl
  · rw [compare_gt_iff_gt.2 (dayNumber_lt_of_year greater), compare_gt_iff_gt.2 greater]
    rfl

theorem dayNumber_lt_iff : a.dayNumber < b.dayNumber ↔ a.year < b.year ∨
    a.year = b.year ∧ (a.month < b.month ∨ a.month = b.month ∧ a.day < b.day) := by
  rw [← compare_lt_iff_lt, compare_dayNumber]
  simp only [Ordering.then_eq_lt, compare_lt_iff_lt, compare_eq_iff_eq]

theorem compare_eq_compare_dayNumber (a b : Date) : compare a b = compare a.dayNumber b.dayNumber :=
  (compare_dayNumber a b).symm

/-- A date is the day after another: the next of its month, or the first of the next month after
the last day of a month, or the first of the next year after the last day of a year. -/
inductive Next (a b : Date) : Prop
  | day (year : b.year = a.year) (month : b.month = a.month) (day : b.day = a.day + 1)
  | month (year : b.year = a.year) (month : b.month = a.month + 1) (day : b.day = 1)
      (last : a.day = daysInMonth a.year a.month)
  | year (year : b.year = a.year + 1) (month : b.month = 1) (day : b.day = 1)
      (december : a.month = 12) (last : a.day = 31)

theorem Next.dayNumber_eq (next : Next a b) : b.dayNumber = a.dayNumber + 1 := by
  have positive := a.day_pos
  cases next with
  | day year month day =>
    rw [dayNumber, dayNumber, year, month, day]
    omega
  | month year month day last =>
    rw [dayNumber, dayNumber, year, month, day, daysBeforeMonth, ← last]
    omega
  | year year month day december last =>
    have succ : daysBeforeMonth a.year 13 = daysBeforeMonth a.year 12 + 31 := rfl
    have january : daysBeforeMonth (a.year + 1) 1 = 0 := rfl
    rw [daysBeforeMonth_thirteen] at succ
    rw [dayNumber, dayNumber, year, month, day, december, last, daysBeforeYear_succ, january]
    omega

/-- Every day is the first of the year 0 or the day after another. -/
theorem first_or_next (d : Date) :
    (d.year = 0 ∧ d.month = 1 ∧ d.day = 1) ∨ ∃ before, Next before d := by
  have yearLe := d.year_le
  have monthPos := d.month_pos
  have monthLe := d.month_le
  have dayPos := d.day_pos
  have dayLe := d.day_le
  by_cases day : d.day = 1
  · by_cases month : d.month = 1
    · by_cases year : d.year = 0
      · exact .inl ⟨year, month, day⟩
      · exact .inr ⟨⟨d.year - 1, 12, 31, by omega, by decide, by decide, by decide, le_refl 31⟩,
          .year (by dsimp only; omega) month day rfl rfl⟩
    · have lastPos : 1 ≤ daysInMonth d.year (d.month - 1) :=
        daysInMonth_pos (by omega) (by omega)
      exact .inr ⟨⟨d.year, d.month - 1, daysInMonth d.year (d.month - 1), yearLe, by omega,
        by omega, lastPos, le_refl _⟩, .month rfl (by dsimp only; omega) day rfl⟩
  · exact .inr ⟨⟨d.year, d.month, d.day - 1, yearLe, monthPos, monthLe, by omega, by omega⟩,
      .day rfl rfl (by dsimp only; omega)⟩

/-- A numbering of the days counts them from the first day of the year 0. -/
structure Counts (number : Date → Nat) : Prop where
  first : ∀ d : Date, d.year = 0 ∧ d.month = 1 ∧ d.day = 1 → number d = 0
  next : ∀ a b : Date, Next a b → number b = number a + 1

theorem counts_dayNumber : Counts dayNumber where
  first := by
    rintro d ⟨year, month, day⟩
    rw [dayNumber, year, month, day]
    rfl
  next _ _ next := next.dayNumber_eq

/-- There is one way to count the days. -/
theorem Counts.eq_dayNumber {number : Date → Nat} (counts : Counts number) :
    number = dayNumber := by
  have reached (n : Nat) : ∀ d : Date, d.dayNumber = n → number d = n := by
    induction n with
    | zero =>
      intro d zero
      rcases d.first_or_next with first | ⟨before, next⟩
      · exact counts.first d first
      · rw [next.dayNumber_eq] at zero
        cases zero
    | succ n ih =>
      intro d succ
      rcases d.first_or_next with first | ⟨before, next⟩
      · rw [counts_dayNumber.first d first] at succ
        cases succ
      · rw [next.dayNumber_eq] at succ
        rw [counts.next before d next, ih before (Nat.succ.inj succ)]
  exact funext fun d => reached d.dayNumber d rfl

end Date

/-! ### Texts of dates -/

namespace Text

/-- Digits with or without a plus sign in front of them, and the number that they stand for. -/
inductive PlusDigits : List Char → Nat → Prop
  | plain {ds : List Char} (digits : Numeral.Digits ds) : PlusDigits ds (Nat.ofDigitChars 10 ds 0)
  | plus {ds : List Char} (digits : Numeral.Digits ds) :
      PlusDigits ('+' :: ds) (Nat.ofDigitChars 10 ds 0)

theorem natOfDigits?_eq_some_iff {cs : List Char} {n : Nat} :
    natOfDigits? cs = some n ↔ Numeral.Digits cs ∧ Nat.ofDigitChars 10 cs 0 = n := by
  simp [natOfDigits?, Numeral.Digits, and_assoc]

theorem natOfPlusDigits?_eq_some_iff {cs : List Char} {n : Nat} :
    natOfPlusDigits? cs = some n ↔ PlusDigits cs n := by
  constructor
  · intro h
    unfold natOfPlusDigits? at h
    split at h
    · obtain ⟨digits, rfl⟩ := natOfDigits?_eq_some_iff.1 h
      exact .plus digits
    · obtain ⟨digits, rfl⟩ := natOfDigits?_eq_some_iff.1 h
      exact .plain digits
  · intro spelled
    cases spelled with
    | plus digits => exact natOfDigits?_eq_some_iff.2 ⟨digits, rfl⟩
    | plain digits =>
      unfold natOfPlusDigits?
      split
      · exact absurd (digits.2 '+' List.mem_cons_self) (by decide)
      · exact natOfDigits?_eq_some_iff.2 ⟨digits, rfl⟩

theorem PlusDigits.dash_not_mem {cs : List Char} {n : Nat} (spelled : PlusDigits cs n) :
    '-' ∉ cs := by
  intro mem
  cases spelled with
  | plain digits => exact absurd (digits.2 _ mem) (by decide)
  | plus digits =>
    rcases List.mem_cons.1 mem with plus | mem
    · exact absurd plus (by decide)
    · exact absurd (digits.2 _ mem) (by decide)

theorem toNat_of_isDigit {c : Char} (digit : c.isDigit = true) : 48 ≤ c.toNat ∧ c.toNat ≤ 57 :=
  Char.isDigit_iff_toNat.1 digit

/-- A digit weighs as much as the number of digits behind it says. -/
theorem ofDigitChars_cons (c : Char) (cs : List Char) :
    Nat.ofDigitChars 10 (c :: cs) 0 =
      10 ^ cs.length * (c.toNat - 48) + Nat.ofDigitChars 10 cs 0 := by
  rw [Nat.ofDigitChars_cons, Nat.ofDigitChars_eq_ofDigitChars_zero, Nat.mul_zero, Nat.zero_add]
  rfl

theorem ofDigitChars_lt {cs : List Char} (digits : ∀ c ∈ cs, c.isDigit = true) :
    Nat.ofDigitChars 10 cs 0 < 10 ^ cs.length := by
  induction cs with
  | nil => decide
  | cons c cs ih =>
    obtain ⟨digit, digits⟩ := List.forall_mem_cons.1 digits
    have range := toNat_of_isDigit digit
    calc Nat.ofDigitChars 10 (c :: cs) 0
        = 10 ^ cs.length * (c.toNat - 48) + Nat.ofDigitChars 10 cs 0 := ofDigitChars_cons c cs
      _ < 10 ^ cs.length * (c.toNat - 48) + 10 ^ cs.length := Nat.add_lt_add_left (ih digits) _
      _ = 10 ^ cs.length * (c.toNat - 48 + 1) := by rw [Nat.mul_add, Nat.mul_one]
      _ ≤ 10 ^ cs.length * 10 := Nat.mul_le_mul_left _ (by omega)
      _ = 10 ^ (cs.length + 1) := (Nat.pow_succ ..).symm

theorem mul_add_lt_mul_add_iff {p u v x y : Nat} (small : x < p) (small' : y < p) :
    p * u + x < p * v + y ↔ u < v ∨ u = v ∧ x < y := by
  rcases lt_trichotomy u v with less | rfl | greater
  · have := Nat.mul_le_mul_left p less
    rw [Nat.mul_succ] at this
    omega
  · omega
  · have := Nat.mul_le_mul_left p greater
    rw [Nat.mul_succ] at this
    omega

/-- Numbers of equally many digits are in the order of their texts. -/
theorem lt_iff_ofDigitChars_lt {cs ds : List Char} (digits : ∀ c ∈ cs, c.isDigit = true)
    (digits' : ∀ d ∈ ds, d.isDigit = true) (same : cs.length = ds.length) :
    cs < ds ↔ Nat.ofDigitChars 10 cs 0 < Nat.ofDigitChars 10 ds 0 := by
  induction cs generalizing ds with
  | nil =>
    obtain rfl := List.length_eq_zero_iff.1 same.symm
    simp
  | cons c cs ih =>
    obtain ⟨d, ds, rfl⟩ := List.exists_cons_of_length_eq_add_one same.symm
    obtain ⟨digit, digits⟩ := List.forall_mem_cons.1 digits
    obtain ⟨digit', digits'⟩ := List.forall_mem_cons.1 digits'
    have same : cs.length = ds.length := Nat.succ.inj same
    have small := ofDigitChars_lt digits
    have small' := ofDigitChars_lt digits'
    have range := toNat_of_isDigit digit
    have range' := toNat_of_isDigit digit'
    have first : c < d ↔ c.toNat - 48 < d.toNat - 48 := by
      have chars : c < d ↔ c.toNat < d.toNat := Char.lt_def.trans UInt32.lt_iff_toNat_lt
      rw [chars]
      omega
    have firsts : c = d ↔ c.toNat - 48 = d.toNat - 48 := by
      rw [← Char.toNat_inj]
      omega
    rw [List.cons_lt_cons_iff, ofDigitChars_cons, ofDigitChars_cons, ← same,
      mul_add_lt_mul_add_iff small (same ▸ small'), first, firsts, ih digits digits' same]

theorem eq_iff_ofDigitChars_eq {cs ds : List Char} (digits : ∀ c ∈ cs, c.isDigit = true)
    (digits' : ∀ d ∈ ds, d.isDigit = true) (same : cs.length = ds.length) :
    cs = ds ↔ Nat.ofDigitChars 10 cs 0 = Nat.ofDigitChars 10 ds 0 := by
  have less := lt_iff_ofDigitChars_lt digits digits' same
  have greater := lt_iff_ofDigitChars_lt digits' digits same.symm
  rw [eq_iff_le_not_lt, eq_iff_le_not_lt, ← not_lt, ← not_lt, less, greater]

/-- Where two texts begin with equally many characters, these decide before the others do. -/
theorem append_lt_append_iff {cs ds more more' : List Char} (same : cs.length = ds.length) :
    cs ++ more < ds ++ more' ↔ cs < ds ∨ cs = ds ∧ more < more' := by
  induction cs generalizing ds with
  | nil =>
    obtain rfl := List.length_eq_zero_iff.1 same.symm
    simp
  | cons c cs ih =>
    obtain ⟨d, ds, rfl⟩ := List.exists_cons_of_length_eq_add_one same.symm
    rw [List.cons_append, List.cons_append, List.cons_lt_cons_iff, List.cons_lt_cons_iff,
      ih (Nat.succ.inj same), List.cons.injEq]
    tauto

end Text

namespace Date

/-- The text of a date has a year, a month and a day with dashes between them. -/
inductive Spelling (d : Date) : List Char → Prop
  | written {ys ms ds : List Char} (year : Text.PlusDigits ys d.year)
      (month : Text.PlusDigits ms d.month) (day : Text.PlusDigits ds d.day) :
      Spelling d (['-'].intercalate [ys, ms, ds])

/-- The text `YYYY-MM-DD` of a date, of four, two and two digits. -/
inductive Canonical (d : Date) : List Char → Prop
  | written {ys ms ds : List Char} (digits : ∀ c ∈ ys ++ ms ++ ds, c.isDigit = true)
      (lengths : ys.length = 4 ∧ ms.length = 2 ∧ ds.length = 2)
      (year : Nat.ofDigitChars 10 ys 0 = d.year) (month : Nat.ofDigitChars 10 ms 0 = d.month)
      (day : Nat.ofDigitChars 10 ds 0 = d.day) : Canonical d (['-'].intercalate [ys, ms, ds])

theorem ofParts?_eq_some_iff {year month day : Nat} {d : Date} :
    ofParts? year month day = some d ↔ d.year = year ∧ d.month = month ∧ d.day = day := by
  constructor
  · intro h
    unfold ofParts? at h
    split at h
    · cases h
      exact ⟨rfl, rfl, rfl⟩
    · cases h
  · rintro ⟨rfl, rfl, rfl⟩
    exact ofParts?_eq_some d

/-- What is read as a date is what spells it. -/
theorem ofText?_eq_some_iff {s : String} {d : Date} :
    ofText? s = some d ↔ Spelling d s.toList := by
  constructor
  · intro h
    unfold ofText? at h
    split at h
    · next ys ms ds parts =>
      simp only [Option.bind_eq_bind, Option.bind_eq_some_iff, Text.natOfPlusDigits?_eq_some_iff,
        ofParts?_eq_some_iff] at h
      obtain ⟨_, year, _, month, _, day, rfl, rfl, rfl⟩ := h
      rw [← @List.intercalate_splitOn _ s.toList _ _ '-', parts]
      exact .written year month day
    · cases h
  · intro spelled
    generalize chars : s.toList = cs at spelled
    cases spelled with
    | @written ys ms ds year month day =>
      have parts : (['-'].intercalate [ys, ms, ds]).splitOn '-' = [ys, ms, ds] := by
        refine List.splitOn_intercalate '-' ?_ (List.cons_ne_nil _ _)
        simp [year.dash_not_mem, month.dash_not_mem, day.dash_not_mem]
      rw [ofText?, chars, parts]
      simp only [Text.natOfPlusDigits?_eq_some_iff.2 year,
        Text.natOfPlusDigits?_eq_some_iff.2 month, Text.natOfPlusDigits?_eq_some_iff.2 day,
        Option.bind_eq_bind, Option.bind_some]
      exact ofParts?_eq_some d

theorem Canonical.spelling {d : Date} {cs : List Char} (canonical : Canonical d cs) :
    Spelling d cs := by
  cases canonical with
  | @written ys ms ds digits lengths year month day =>
    have run (part : List Char) (inside : part ⊆ ys ++ ms ++ ds) (pos : part.length ≠ 0) :
        Text.PlusDigits part (Nat.ofDigitChars 10 part 0) :=
      .plain ⟨mt List.length_eq_zero_iff.2 pos, fun c mem => digits c (inside mem)⟩
    have years := run ys (by simp) (by omega)
    have months := run ms (by simp) (by omega)
    have days := run ds (by simp) (by omega)
    rw [year] at years
    rw [month] at months
    rw [day] at days
    exact .written years months days

/-- Dates of ten characters are in the order of their texts. -/
theorem Canonical.lt_iff {a b : Date} {cs ds : List Char} (left : Canonical a cs)
    (right : Canonical b ds) : cs < ds ↔ a.dayNumber < b.dayNumber := by
  cases left with
  | @written ys ms ds digits lengths year month day =>
    cases right with
    | @written ys' ms' ds' digits' lengths' year' month' day' =>
      simp only [List.mem_append, or_imp, forall_and] at digits digits'
      obtain ⟨⟨years, months⟩, days⟩ := digits
      obtain ⟨⟨years', months'⟩, days'⟩ := digits'
      have sameYear : ys.length = ys'.length := by omega
      have sameMonth : ms.length = ms'.length := by omega
      have sameDay : ds.length = ds'.length := by omega
      have dashed (ys ms ds : List Char) :
          ['-'].intercalate [ys, ms, ds] = ys ++ '-' :: (ms ++ '-' :: ds) := by simp
      rw [dashed, dashed, Text.append_lt_append_iff sameYear, List.cons_lt_cons_self,
        Text.append_lt_append_iff sameMonth, List.cons_lt_cons_self,
        Text.lt_iff_ofDigitChars_lt years years' sameYear,
        Text.eq_iff_ofDigitChars_eq years years' sameYear,
        Text.lt_iff_ofDigitChars_lt months months' sameMonth,
        Text.eq_iff_ofDigitChars_eq months months' sameMonth,
        Text.lt_iff_ofDigitChars_lt days days' sameDay, year, year', month, month', day, day',
        dayNumber_lt_iff]

theorem Canonical.compare_eq {a b : Date} {s t : String} (left : Canonical a s.toList)
    (right : Canonical b t.toList) : compare s t = compare a.dayNumber b.dayNumber :=
  compare_eq_compare_of_lt_iff (String.lt_iff_toList_lt.trans (left.lt_iff right))
    (String.lt_iff_toList_lt.trans (right.lt_iff left))

end Date

/-! ### Comparisons of dates -/

theorem Operator.accepts_compare_nat_iff {op : Operator} {m n : Nat} :
    op.accepts (compare m n) = true ↔ op.Relates m n := by
  have cast : compare (m : ℚ) n = compare m n :=
    compare_eq_compare_of_lt_iff Nat.cast_lt Nat.cast_lt
  rw [← cast, accepts_compare_iff]

namespace Comparator

variable {op : Operator} {s t : String} {a b : Date}

theorem test_date (left : Date.ofText? s = some a) :
    (⟨op, .date b⟩ : Comparator).test (.text s) = op.accepts (compare a.dayNumber b.dayNumber) := by
  rw [test_typed (.date b) nofun, Operand.ordering?, left, ← Date.compare_eq_compare_dayNumber]
  rfl

theorem test_canonical (left : a.Canonical s.toList) (right : b.Canonical t.toList) :
    (⟨op, .text t⟩ : Comparator).test (.text s) = op.accepts (compare a.dayNumber b.dayNumber) := by
  rw [test_typed (.text t) nofun, Operand.ordering?, left.compare_eq right]

end Comparator

namespace Predicate

variable {registry : Registry} {days texts : String} {d d' : TypeDescriptor}

/-- Dates compare as the days they are, counted from the first day of the year 0. A text is read as
a date if it is three numbers with dashes between them that the calendar has, each with or without a
plus sign and zeros in front; a comparator of a type of dates then compares the numbers of the days,
which is to compare year, month and day in turn. If both texts are of ten characters, both are read,
and a comparison with one of them says the same of the other for a subject of dates as for one of
texts. -/
theorem evaluate_chronological (foundDays : registry.get? days = some d)
    (dates : d.scalarKind? = some .date) (foundTexts : registry.get? texts = some d')
    (plain : d'.scalarKind? = some .text) (s t : String) (a b : Date) :
    (Date.Counts Date.dayNumber ∧ ∀ number, Date.Counts number → number = Date.dayNumber) ∧
    (Date.ofText? s = some a ↔ a.Spelling s.toList) ∧
    (Date.ofText? s = some a → Date.ofText? t = some b → ∀ op offset, ∃ k,
      Comparator.resolve d ⟨op, .text t, offset⟩ = .ok k ∧
      (k.test (.text s) = true ↔ op.Relates a.dayNumber b.dayNumber) ∧
      k.test (.text s) = op.accepts
        ((compare a.year b.year).then ((compare a.month b.month).then (compare a.day b.day)))) ∧
    (a.Canonical s.toList → b.Canonical t.toList →
      Date.ofText? s = some a ∧ Date.ofText? t = some b ∧
      ∀ (op : Operator) (lexeme : String) (more : Char → Bool) (limits : Limits),
        Token.Spelling lexeme.toList (.literal (.text t)) more →
        (Clause.ofComparison op lexeme).utf8ByteSize ≤ limits.maxClauseBytes →
        1 ≤ limits.maxComparisons →
          ∃ p p', compile registry days limits (Clause.ofComparison op lexeme) = .ok p ∧
            compile registry texts limits (Clause.ofComparison op lexeme) = .ok p' ∧
            p.evaluate (.text s) = p'.evaluate (.text s) ∧
            (p.evaluate (.text s) = true ↔ op.Relates a.dayNumber b.dayNumber)) := by
  have resolves {t : String} {b : Date} (right : Date.ofText? t = some b) (op : Operator)
      (offset : Nat) : Comparator.resolve d ⟨op, .text t, offset⟩ = .ok ⟨op, .date b⟩ :=
    Comparator.resolve_of_converts (.date dates right)
  have resolves' (op : Operator) (offset : Nat) :
      Comparator.resolve d' ⟨op, .text t, offset⟩ = .ok ⟨op, .text t⟩ :=
    Comparator.resolve_of_converts (.text plain t)
  refine ⟨⟨Date.counts_dayNumber, fun number counts => counts.eq_dayNumber⟩,
    Date.ofText?_eq_some_iff, ?_, ?_⟩
  · intro left right op offset
    refine ⟨_, resolves right op offset, ?_, ?_⟩
    · rw [Comparator.test_date left, Operator.accepts_compare_nat_iff]
    · rw [Comparator.test_date left, Date.compare_dayNumber]
  · intro left right
    have left' := Date.ofText?_eq_some_iff.2 left.spelling
    have right' := Date.ofText?_eq_some_iff.2 right.spelling
    refine ⟨left', right', ?_⟩
    intro op lexeme more limits spelled small few
    obtain ⟨p, compiled⟩ := exists_compile_of_resolves foundDays spelled
      (fun offset => ⟨_, resolves right' op offset⟩) small few
    obtain ⟨p', compiled'⟩ := exists_compile_of_resolves foundTexts spelled
      (fun offset => ⟨_, resolves' op offset⟩) small few
    obtain ⟨offset, k, resolved, tests⟩ := test_of_compile_comparison foundDays spelled compiled
    obtain ⟨offset', k', resolved', tests'⟩ :=
      test_of_compile_comparison foundTexts spelled compiled'
    cases (resolves right' op offset).symm.trans resolved
    cases (resolves' op offset').symm.trans resolved'
    refine ⟨p, p', compiled, compiled', ?_, ?_⟩
    · rw [tests, tests', Comparator.test_date left', Comparator.test_canonical left right]
    · rw [tests, Comparator.test_date left', Operator.accepts_compare_nat_iff]

/-- The last day of February is before the first of March, however these are written. -/
theorem evaluate_chronological_leap_day :
    (∃ k, Comparator.resolve ⟨"LocalDate", .scalar .date⟩ ⟨.lt, .text "+0002024-3-1", 5⟩ = .ok k ∧
      k.test (.text "2024-02-29") = true) ∧
    ∃ p p', compile .builtin "LocalDate" {} (Clause.ofComparison .lt "\"2024-03-01\"") = .ok p ∧
      compile .builtin "String" {} (Clause.ofComparison .lt "\"2024-03-01\"") = .ok p' ∧
      p.evaluate (.text "2024-02-29") = true ∧ p'.evaluate (.text "2024-02-29") = true := by
  let leap : Date := ⟨2024, 2, 29, by decide, by decide, by decide, by decide, by decide⟩
  let march : Date := ⟨2024, 3, 1, by decide, by decide, by decide, by decide, by decide⟩
  have days : Registry.builtin.get? "LocalDate" = some ⟨"LocalDate", .scalar .date⟩ := rfl
  have texts : Registry.builtin.get? "String" = some ⟨"String", .scalar .text⟩ := rfl
  have before : Operator.lt.Relates leap.dayNumber march.dayNumber := by
    have number : leap.dayNumber = 739310 := by decide +kernel
    have number' : march.dayNumber = 739311 := by decide +kernel
    rw [number, number']
    exact Nat.cast_lt.2 (by decide)
  constructor
  · obtain ⟨-, -, compares, -⟩ :=
      evaluate_chronological days rfl texts rfl "2024-02-29" "+0002024-3-1" leap march
    obtain ⟨k, resolved, related, -⟩ :=
      compares (by decide +kernel) (by decide +kernel) .lt 5
    exact ⟨k, resolved, related.2 before⟩
  · obtain ⟨-, -, -, canonical⟩ :=
      evaluate_chronological days rfl texts rfl "2024-02-29" "2024-03-01" leap march
    have left : leap.Canonical "2024-02-29".toList :=
      @Date.Canonical.written leap "2024".toList "02".toList "29".toList (by simp) (by decide) rfl
        rfl rfl
    have right : march.Canonical "2024-03-01".toList :=
      @Date.Canonical.written march "2024".toList "03".toList "01".toList (by simp) (by decide) rfl
        rfl rfl
    obtain ⟨more, spelled⟩ := @Literal.spelling_chars (.text "2024-03-01") trivial
    obtain ⟨-, -, agrees⟩ := canonical left right
    obtain ⟨p, p', compiled, compiled', same, related⟩ :=
      agrees .lt "\"2024-03-01\"" more {} spelled (by decide) (by decide)
    have holds := related.2 before
    exact ⟨p, p', compiled, compiled', holds, same ▸ holds⟩

end Predicate

end HalfBinary
