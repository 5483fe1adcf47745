import Rollup.Calendar.Instant

/-! # Intervals of time

An interval is a fixed number of milliseconds, counted from the start of 1970, or a unit of the
calendar. Intervals of one kind lie side by side without gaps: `floor` gives the start of the one
that holds an instant, and `next` the start of the one after it. Results beyond 64 bits, or for
weeks and longer units beyond the years of the calendar, do not exist.
-/

namespace Rollup.Calendar

inductive Unit where
  | minute
  | hour
  | day
  | week
  | month
  | quarter
  | year
  deriving DecidableEq, Repr

inductive Interval where
  | unit (unit : Unit)
  /-- So many milliseconds. -/
  | fixed (width : Int)
  deriving DecidableEq, Repr

namespace Unit

/-- Unit of a name. -/
def ofText? (text : String) : Option Unit :=
  [("minute", minute), ("1m", minute), ("hour", hour), ("1h", hour), ("day", day), ("1d", day),
   ("week", week), ("1w", week), ("month", month), ("1M", month), ("quarter", quarter),
   ("1q", quarter), ("year", year), ("1y", year)].lookup text

/-- The span of a unit: so many milliseconds, or so many months. -/
inductive Span where
  | millis (n : Int)
  | months (n : Int)
  deriving DecidableEq, Repr

def span : Unit → Span
  | minute => .millis 60000
  | hour => .millis 3600000
  | day => .millis 86400000
  | week => .millis (7 * 86400000)
  | month => .months 1
  | quarter => .months 3
  | year => .months 12

end Unit

namespace Interval

/-- Width of a fixed interval: a number and one of five units, not zero and within 64 bits. -/
def ofWidthText? (text : String) : Option Interval := do
  let digits := text.toList.takeWhile Binary64.isDigit
  let unit ← [("ms", 1), ("s", 1000), ("m", 60000), ("h", 3600000), ("d", 86400000)].lookup
    (String.ofList (text.toList.dropWhile Binary64.isDigit))
  if digits.isEmpty then none
  else
    let amount ← Word64.fits? (Binary64.natOfDigits digits)
    let width ← Word64.fits? (amount * unit)
    if 0 < width then some (.fixed width) else none

/-- A unit of the calendar by name. -/
def ofUnitText? (text : String) : Option Interval := (Unit.ofText? text).map .unit

/-- Greatest multiple of a width that is not above an instant. -/
def align (instant : Instant) (width : Int) : Option Instant := Word64.fits? (instant / width * width)

/-- First instant of a day, if the day is in the calendar. -/
def startOfDay (day : Int) : Option Instant :=
  if Calendar.inRange day then some (day * Instant.millisPerDay) else none

/-- Day of an instant, if it is in the calendar. -/
def dayOf (instant : Instant) : Option Int :=
  let day := instant / Instant.millisPerDay
  if Calendar.inRange day then some day else none

/-- Greatest month that is not after a month and starts a span of so many months in its year. -/
def alignMonth (month months : Int) : Int := (month + 2) / months * months - 2

/-- Start of the interval that holds an instant. Weeks start on Monday; the first of January 1970
is a Thursday. -/
def floor (interval : Interval) (instant : Instant) : Option Instant :=
  match interval with
  | fixed width => align instant width
  | unit .week => do
      let day ← dayOf instant
      startOfDay (day - (day + 3) % 7)
  | unit u => match u.span with
      | .millis width => align instant width
      | .months months => do
          let day ← dayOf instant
          startOfDay (monthStart (alignMonth (monthOf day) months))

/-- Start of the interval after the one that starts at an instant. -/
def next (interval : Interval) (start : Instant) : Option Instant :=
  match interval with
  | fixed width => Word64.fits? (start + width)
  | unit u => match u.span with
      | .millis width => Word64.fits? (start + width)
      | .months months => do
          let day ← dayOf start
          let month := monthOf day
          let target := monthStart (month + months)
          let length := monthStart (month + months + 1) - target
          let day' := target + min (day - monthStart month) (length - 1)
          if Calendar.inRange day' then
            some (day' * Instant.millisPerDay + start % Instant.millisPerDay)
          else none

end Interval

end Rollup.Calendar
