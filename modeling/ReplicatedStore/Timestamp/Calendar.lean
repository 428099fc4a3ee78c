/-!
The Gregorian calendar, extended to all years. Days are counted from the first of 1970. A year is
taken to begin in March, so that the leap day is its last.
-/

namespace ReplicatedStore

structure CalendarDate where
  year : Int
  month : Nat
  day : Nat
  deriving DecidableEq, Repr, Inhabited

namespace CalendarDate

def isLeap (year : Int) : Bool :=
  year % 4 = 0 && (year % 100 ≠ 0 || year % 400 = 0)

def daysInMonth (year : Int) (month : Nat) : Nat :=
  match month with
  | 2 => if isLeap year then 29 else 28
  | 4 | 6 | 9 | 11 => 30
  | _ => 31

def isValid (date : CalendarDate) : Bool :=
  1 ≤ date.month && date.month ≤ 12 && 1 ≤ date.day && date.day ≤ daysInMonth date.year date.month

def daysBeforeMonth (m : Nat) : Nat := (153 * m + 2) / 5

def toDays (date : CalendarDate) : Int :=
  let year := if date.month ≤ 2 then date.year - 1 else date.year
  let span := year / 400
  let yearOfSpan := (year % 400).toNat
  let dayOfYear := daysBeforeMonth ((date.month + 9) % 12) + date.day - 1
  let dayOfSpan := 365 * yearOfSpan + yearOfSpan / 4 - yearOfSpan / 100 + dayOfYear
  span * 146097 + dayOfSpan - 719468

def ofDays (days : Int) : CalendarDate :=
  let shifted := days + 719468
  let span := shifted / 146097
  let dayOfSpan := (shifted % 146097).toNat
  let yearOfSpan := (dayOfSpan - dayOfSpan / 1460 + dayOfSpan / 36524 - dayOfSpan / 146096) / 365
  let dayOfYear := dayOfSpan - (365 * yearOfSpan + yearOfSpan / 4 - yearOfSpan / 100)
  let m := (5 * dayOfYear + 2) / 153
  let month := if m < 10 then m + 3 else m - 9
  let year := span * 400 + yearOfSpan
  { year := if month ≤ 2 then year + 1 else year
    month
    day := dayOfYear - daysBeforeMonth m + 1 }

end CalendarDate

end ReplicatedStore
