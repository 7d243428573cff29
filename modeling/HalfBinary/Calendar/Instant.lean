import HalfBinary.Calendar.Date

/-!
# Instants

Points in time, read from the timestamps of RFC 3339: a date, a time of day with an optional
fraction of a second, and an offset from universal time. Two timestamps of one instant are equal.
-/

namespace HalfBinary

/-- A point in universal time, in nanoseconds since the start of the year 0. -/
structure Instant where
  nanoseconds : Int
  deriving DecidableEq, Repr

namespace Instant

protected def compare (a b : Instant) : Ordering := compare a.nanoseconds b.nanoseconds

instance : Ord Instant := ⟨Instant.compare⟩

/-- Instants that compare as equal are equal. -/
instance : Std.LawfulEqOrd Instant where
  compare_self := fun {a} => Std.compare_self (a := a.nanoseconds)
  eq_of_compare := by
    intro a b h
    have same : a.nanoseconds = b.nanoseconds := Std.LawfulEqOrd.eq_of_compare h
    cases a
    cases b
    simp_all

/-- The parts of a timestamp. The offset is in minutes and positive to the east. -/
structure Stamp where
  date : Date
  hour : Nat
  minute : Nat
  second : Nat
  nanosecond : Nat
  offset : Int
  deriving DecidableEq, Repr

namespace Stamp

/-- Minutes of universal time since midnight of the written date, which may be negative or past
that day. -/
def minutes (s : Stamp) : Int := s.hour * 60 + s.minute - s.offset

def instant (s : Stamp) : Instant :=
  ⟨((s.date.dayNumber * 1440 + s.minutes) * 60 + s.second) * 1000000000 + s.nanosecond⟩

/-- Whether the minute is the last of a month in universal time. -/
def isLastMinuteOfMonth (s : Stamp) : Bool :=
  let day : Int := s.date.day + s.minutes / 1440
  s.minutes % 1440 = 1439 && (day = 0 || day = Calendar.daysInMonth s.date.year s.date.month)

/-- The second 60 is a leap second, which only the last minute of a month has. It stands for the
last nanosecond before it. -/
def settleLeapSecond (s : Stamp) : Option Stamp :=
  if s.second = 60 then
    if s.isLastMinuteOfMonth then some { s with second := 59, nanosecond := 999999999 } else none
  else some s

end Stamp

/-! ## Reading timestamps -/

/-- A number of a fixed count of digits, and the rest. -/
def readDigits (count : Nat) (cs : List Char) : Option (Nat × List Char) :=
  if (cs.take count).length = count then
    (Text.natOfDigits? (cs.take count)).map (·, cs.drop count)
  else none

/-- The rest after an expected character. -/
def expect (c : Char) : List Char → Option (List Char)
  | d :: rest => if d = c then some rest else none
  | [] => none

/-- The rest after the separator of date and time, which is any character of one byte. -/
def skipSeparator : List Char → Option (List Char)
  | c :: rest => if c.utf8Size = 1 then some rest else none
  | [] => none

/-- The nanoseconds of an optional fraction; digits after the ninth do not count. -/
def readFraction : List Char → Option (Nat × List Char)
  | '.' :: rest =>
    let ds := rest.takeWhile Char.isDigit
    if ds.isEmpty then none
    else some (Nat.ofDigitChars 10 ((ds ++ List.replicate 9 '0').take 9) 0,
      rest.dropWhile Char.isDigit)
  | rest => some (0, rest)

/-- The offset in minutes that ends a timestamp. -/
def readOffset : List Char → Option Int
  | ['Z'] | ['z'] => some 0
  | sign :: rest => do
    let (hours, rest) ← readDigits 2 rest
    let (minutes, rest) ← readDigits 2 (← expect ':' rest)
    if hours ≤ 23 ∧ minutes ≤ 59 ∧ rest = [] then
      if sign = '+' then some (hours * 60 + minutes : Nat)
      else if sign = '-' then some (-(hours * 60 + minutes : Nat))
      else none
    else none
  | [] => none

/-- Reads the parts of a timestamp. -/
def readStamp (cs : List Char) : Option Stamp := do
  let (year, cs) ← readDigits 4 cs
  let (month, cs) ← readDigits 2 (← expect '-' cs)
  let (day, cs) ← readDigits 2 (← expect '-' cs)
  let date ← Date.ofParts? year month day
  let (hour, cs) ← readDigits 2 (← skipSeparator cs)
  let (minute, cs) ← readDigits 2 (← expect ':' cs)
  let (second, cs) ← readDigits 2 (← expect ':' cs)
  let (nanosecond, cs) ← readFraction cs
  let offset ← readOffset cs
  if hour ≤ 23 ∧ minute ≤ 59 ∧ second ≤ 60 then
    some ⟨date, hour, minute, second, nanosecond, offset⟩
  else none

/-- The instant that a timestamp denotes. -/
def ofText? (text : String) : Option Instant := do
  let stamp ← readStamp text.toList
  return (← stamp.settleLeapSecond).instant

example : ofText? "2024-01-01T01:30:00.5+01:30" = ofText? "2024-01-01 00:00:00.500Z" := by
  decide +kernel
example : (ofText? "2017-01-01T00:59:60+01:00").isSome := by decide +kernel
example : ofText? "2017-01-01T23:59:60Z" = none := by decide +kernel
example : ofText? "0000-01-01T00:00:00.000000001Z" = some ⟨1⟩ := by decide +kernel

end Instant

end HalfBinary
