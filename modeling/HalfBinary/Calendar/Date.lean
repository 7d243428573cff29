import HalfBinary.Text.Digits

/-!
# Calendar dates

Days of the proleptic Gregorian calendar in the years 0 to 9999; the year 0 is a leap year. Dates
are ordered by year, month and day.
-/

namespace HalfBinary

namespace Calendar

/-- Every fourth year is a leap year, except for the centuries that 400 does not divide. -/
def isLeapYear (year : Nat) : Bool := year % 4 = 0 && (year % 100 ≠ 0 || year % 400 = 0)

/-- The number of days of a month, which is 1 for January; none but 1 to 12 has any. -/
def daysInMonth (year : Nat) : Nat → Nat
  | 1 | 3 | 5 | 7 | 8 | 10 | 12 => 31
  | 4 | 6 | 9 | 11 => 30
  | 2 => if isLeapYear year then 29 else 28
  | _ => 0

/-- The number of days from the first day of the year 0 to the first day of a year. -/
def daysBeforeYear (year : Nat) : Nat :=
  365 * year + (year + 3) / 4 - (year + 99) / 100 + (year + 399) / 400

/-- The number of days of a year before a month. -/
def daysBeforeMonth (year : Nat) : Nat → Nat
  | 0 => 0
  | month + 1 => daysBeforeMonth year month + daysInMonth year month

end Calendar

structure Date where
  year : Nat
  month : Nat
  day : Nat
  year_le : year ≤ 9999
  month_pos : 1 ≤ month
  month_le : month ≤ 12
  day_pos : 1 ≤ day
  day_le : day ≤ Calendar.daysInMonth year month
  deriving DecidableEq, Repr

namespace Date

/-- The date of these parts if the calendar has it. -/
def ofParts? (year month day : Nat) : Option Date :=
  if h : year ≤ 9999 ∧ (1 ≤ month ∧ month ≤ 12) ∧
      1 ≤ day ∧ day ≤ Calendar.daysInMonth year month then
    some ⟨year, month, day, h.1, h.2.1.1, h.2.1.2, h.2.2.1, h.2.2.2⟩
  else none

/-- The number of days since the first day of the year 0. -/
def dayNumber (d : Date) : Nat :=
  Calendar.daysBeforeYear d.year + Calendar.daysBeforeMonth d.year d.month + (d.day - 1)

/-- Order by year, then month, then day. -/
protected def compare (a b : Date) : Ordering :=
  (compare a.year b.year).then ((compare a.month b.month).then (compare a.day b.day))

instance : Ord Date := ⟨Date.compare⟩

/-- Dates that compare as equal are equal. -/
instance : Std.LawfulEqOrd Date where
  compare_self := by
    intro a
    change Date.compare a a = .eq
    simp [Date.compare]
  eq_of_compare := by
    intro a b h
    change Date.compare a b = .eq at h
    simp only [Date.compare, Ordering.then_eq_eq, Std.compare_eq_iff_eq] at h
    obtain ⟨year, month, day⟩ := h
    cases a
    cases b
    simp_all

/-- Reads year, month and day with dashes between them. Each is a run of digits of any length, with
or without a plus sign. -/
def ofText? (text : String) : Option Date :=
  match text.toList.splitOn '-' with
  | [year, month, day] => do
    ofParts? (← Text.natOfPlusDigits? year) (← Text.natOfPlusDigits? month)
      (← Text.natOfPlusDigits? day)
  | _ => none

example : (ofText? "2024-02-29").map dayNumber = some 739310 := by decide +kernel
example : (ofText? "+0000002024-3-01").map dayNumber = some 739311 := by decide +kernel
example : ofText? "2023-02-29" = none := by decide +kernel
example : ofText? "-2023-02-28" = none := by decide +kernel

theorem ofParts?_eq_some (d : Date) : ofParts? d.year d.month d.day = some d :=
  dif_pos ⟨d.year_le, ⟨d.month_pos, d.month_le⟩, d.day_pos, d.day_le⟩

end Date

end HalfBinary
