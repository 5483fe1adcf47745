/-! # Civil dates

Days are counted from 1970-01-01 in the proleptic Gregorian calendar. Months are numbered without a
break, so a month and the one after it differ by one; the count starts in March of year zero, which
puts the leap day at the end of a year of months. Every day lies in exactly one month.
-/

namespace Rollup.Calendar

/-- Day number of 1970-01-01, counted from the first of March of year zero. -/
def epochShift : Int := 719468

/-- First day of a month. -/
def monthStart (month : Int) : Int :=
  let year := month / 12
  365 * year + year / 4 - year / 100 + year / 400 + (153 * (month % 12) + 2) / 5 - epochShift

/-- The month that holds a day. Four centuries have 4800 months and 146097 days, which gives a first
guess; the guess is off by one month at most. -/
def monthOf (day : Int) : Int :=
  let guess := (day + epochShift) * 4800 / 146097
  if day < monthStart guess then guess - 1
  else if monthStart (guess + 1) ≤ day then guess + 1
  else guess

theorem leapDays_succ (year : Int) :
    0 ≤ ((year + 1) / 4 - year / 4) - ((year + 1) / 100 - year / 100)
        + ((year + 1) / 400 - year / 400) ∧
      ((year + 1) / 4 - year / 4) - ((year + 1) / 100 - year / 100)
        + ((year + 1) / 400 - year / 400) ≤ 1 := by
  omega

/-- A month has 28 to 31 days. -/
theorem monthStart_succ (month : Int) :
    28 ≤ monthStart (month + 1) - monthStart month ∧
      monthStart (month + 1) - monthStart month ≤ 31 := by
  have hleap := leapDays_succ (month / 12)
  unfold monthStart epochShift
  simp only
  rcases Int.lt_or_le (month % 12) 11 with h | h
  · have hyear : (month + 1) / 12 = month / 12 := by omega
    have hmonth : (month + 1) % 12 = month % 12 + 1 := by omega
    rw [hyear, hmonth]
    omega
  · have hyear : (month + 1) / 12 = month / 12 + 1 := by omega
    have hnext : (month + 1) % 12 = 0 := by omega
    have hmonth : month % 12 = 11 := by omega
    rw [hyear, hnext, hmonth]
    omega

/-- A month starts within four days of its share of 4800 months. -/
theorem monthStart_bounds (month : Int) :
    146097 * month - 4800 * 3 ≤ 4800 * (monthStart month + epochShift) ∧
      4800 * (monthStart month + epochShift) ≤ 146097 * month + 4800 * 4 := by
  unfold monthStart epochShift
  simp only
  omega

/-- The month of a day has begun by that day, and the next one has not. -/
theorem monthStart_monthOf (day : Int) :
    monthStart (monthOf day) ≤ day ∧ day < monthStart (monthOf day + 1) := by
  have hguess : monthStart ((day + epochShift) * 4800 / 146097 - 1) ≤ day ∧
      day < monthStart ((day + epochShift) * 4800 / 146097 + 2) := by
    have hlow := monthStart_bounds ((day + epochShift) * 4800 / 146097 - 1)
    have hhigh := monthStart_bounds ((day + epochShift) * 4800 / 146097 + 2)
    simp only [epochShift] at hlow hhigh ⊢
    omega
  unfold monthOf
  simp only
  split
  · exact ⟨hguess.1, by simpa using ‹_›⟩
  · split
    · exact ⟨by assumption, by simpa [Int.add_assoc] using hguess.2⟩
    · omega

/-- Number of a calendar month: January and February belong to the year of months before. -/
def monthNumber (year : Int) (month : Nat) : Int := 12 * year + (month : Int) - 3

/-- A day of a year. -/
structure Date where
  year : Int
  month : Nat
  day : Nat
  deriving DecidableEq, Repr

namespace Date

def ofDay (day : Int) : Date :=
  let number := monthOf day
  { year := (number + 2) / 12
    month := ((number + 2) % 12).toNat + 1
    day := (day - monthStart number).toNat + 1 }

/-- Day number of a date. A day beyond the end of its month counts into the next one. -/
def toDay (date : Date) : Int := monthStart (monthNumber date.year date.month) + date.day - 1

/-- Least and greatest year of the calendar. -/
def minYear : Int := -262143

def maxYear : Int := 262142

/-- Whether a date exists in the calendar. -/
def isValid (date : Date) : Bool :=
  minYear ≤ date.year && date.year ≤ maxYear && 1 ≤ date.month && date.month ≤ 12 && 1 ≤ date.day
    && (date.day : Int) ≤ monthStart (monthNumber date.year date.month + 1)
      - monthStart (monthNumber date.year date.month)

end Date

/-- Whether a day lies within the years of the calendar. -/
def inRange (day : Int) : Bool :=
  (Date.mk Date.minYear 1 1).toDay ≤ day && day ≤ (Date.mk Date.maxYear 12 31).toDay

end Rollup.Calendar
