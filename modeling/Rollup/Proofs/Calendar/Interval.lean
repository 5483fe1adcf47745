import Mathlib
import Rollup.Calendar.Interval

/-! # Intervals side by side

The intervals of one kind can be numbered, and each of them ends where the next one starts. Rounding
down finds the interval that holds an instant, and the next start is that of the next number.
-/

namespace Rollup.Calendar

/-! ## Months -/

theorem monthStart_strictMono : StrictMono monthStart := by
  refine strictMono_int_of_lt_succ fun month => ?_
  have := monthStart_succ month
  omega

/-- Every day lies in one month. -/
theorem monthOf_eq {month day : Int} (begun : monthStart month ≤ day)
    (ends : day < monthStart (month + 1)) : monthOf day = month := by
  obtain ⟨first, last⟩ := monthStart_monthOf day
  have least := monthStart_strictMono.lt_iff_lt.mp (begun.trans_lt last)
  have most := monthStart_strictMono.lt_iff_lt.mp (first.trans_lt ends)
  omega

theorem monthOf_monthStart (month : Int) : monthOf (monthStart month) = month :=
  monthOf_eq le_rfl (monthStart_strictMono (lt_add_one month))

namespace Interval

open Instant (millisPerDay)

/-- Start of the interval of a number. -/
def startAt : Interval → Int → Instant
  | fixed width, n => n * width
  -- Three days before the start of 1970 is a Monday.
  | unit .week, n => (7 * n - 3) * millisPerDay
  | unit u, n => match u.span with
      | .millis width => n * width
      -- Two months before the months are counted from is January of year zero.
      | .months months => monthStart (months * n - 2) * millisPerDay

/-- An interval is not empty. -/
def Positive : Interval → Prop
  | fixed width => 0 < width
  | unit _ => True

theorem startAt_strictMono {interval : Interval} (positive : interval.Positive) :
    StrictMono interval.startAt := by
  refine strictMono_int_of_lt_succ fun n => ?_
  have multiples {width : Int} (positive : 0 < width) : n * width < (n + 1) * width :=
    Int.mul_lt_mul_of_pos_right (lt_add_one n) positive
  have months {months : Int} (positive : 0 < months) :
      monthStart (months * n - 2) * millisPerDay <
        monthStart (months * (n + 1) - 2) * millisPerDay := by
    refine Int.mul_lt_mul_of_pos_right (monthStart_strictMono ?_) (by decide)
    rw [mul_add]
    omega
  cases interval with
  | fixed width => exact multiples positive
  | unit u =>
      cases u with
      | minute | hour | day => exact multiples (by decide)
      | week =>
          refine Int.mul_lt_mul_of_pos_right ?_ (by decide)
          omega
      | month | quarter | year => exact months (by decide)

/-! ## The interval that holds an instant -/

/-- Number of the interval that holds an instant. -/
def numberOf : Interval → Instant → Int
  | fixed width, instant => instant / width
  | unit .week, instant => (instant / millisPerDay + 3) / 7
  | unit u, instant => match u.span with
      | .millis width => instant / width
      | .months months => (monthOf (instant / millisPerDay) + 2) / months

theorem multiples_around {width : Int} (positive : 0 < width) (instant : Int) :
    instant / width * width ≤ instant ∧ instant < (instant / width + 1) * width :=
  ⟨Int.ediv_mul_le _ positive.ne', Int.lt_ediv_add_one_mul_self _ positive⟩

/-- Days around that of an instant, in milliseconds. -/
theorem days_around {instant first last : Int} (begun : first ≤ instant / millisPerDay)
    (ends : instant / millisPerDay < last) :
    first * millisPerDay ≤ instant ∧ instant < last * millisPerDay := by
  unfold millisPerDay at *
  omega

/-- Months are taken together in multiples, counted from January of year zero. -/
theorem months_around {months : Int} (positive : 0 < months) (instant : Int) :
    monthStart (months * ((monthOf (instant / millisPerDay) + 2) / months) - 2) * millisPerDay ≤
        instant ∧
      instant < monthStart (months * ((monthOf (instant / millisPerDay) + 2) / months + 1) - 2) *
        millisPerDay := by
  obtain ⟨begun, ends⟩ := monthStart_monthOf (instant / millisPerDay)
  obtain ⟨least, most⟩ := multiples_around positive (monthOf (instant / millisPerDay) + 2)
  rw [mul_comm] at least most
  have mono := monthStart_strictMono.monotone
  apply days_around
  · exact (mono (by omega)).trans begun
  · exact ends.trans_le (mono (by omega))

theorem around_numberOf {interval : Interval} (positive : interval.Positive) (instant : Instant) :
    interval.startAt (interval.numberOf instant) ≤ instant ∧
      instant < interval.startAt (interval.numberOf instant + 1) := by
  cases interval with
  | fixed width => exact multiples_around positive instant
  | unit u =>
      cases u with
      | minute | hour | day => exact multiples_around (by decide) instant
      | week =>
          have week (day : Int) : 7 * ((day + 3) / 7) - 3 ≤ day ∧
              day < 7 * ((day + 3) / 7 + 1) - 3 := by omega
          exact days_around (week _).1 (week _).2
      | month | quarter | year => exact months_around (by decide) instant

/-- An instant lies in one interval: between two there is no other number. -/
theorem numberOf_eq {interval : Interval} (positive : interval.Positive) {instant : Instant} {n : Int}
    (begun : interval.startAt n ≤ instant) (ends : instant < interval.startAt (n + 1)) :
    interval.numberOf instant = n := by
  obtain ⟨least, most⟩ := around_numberOf positive instant
  have mono := startAt_strictMono positive
  have lower := mono.lt_iff_lt.mp (least.trans_lt ends)
  have upper := mono.lt_iff_lt.mp (begun.trans_lt most)
  omega

/-! ## Rounding down -/

/-- The width of intervals whose starts are its multiples. Weeks and longer units are found by the
calendar instead. -/
def width? : Interval → Option Int
  | fixed width => some width
  | unit .minute => some 60000
  | unit .hour => some 3600000
  | unit .day => some 86400000
  | unit _ => none

/-- The range of an interval: 64 bits, or the years of the calendar. -/
def InRange (interval : Interval) (instant : Instant) : Prop :=
  match interval.width? with
  | some _ => Word64.Holds instant
  | none => Calendar.inRange (instant / millisPerDay)

theorem fits?_iff {m n : Int} (same : m = n) {result : Int} :
    Word64.fits? m = some result ↔ result = n ∧ Word64.Holds result := by
  rw [Word64.fits?_eq_some_iff, same]
  constructor
  · rintro ⟨rfl, holds⟩
    exact ⟨rfl, holds⟩
  · rintro ⟨rfl, holds⟩
    exact ⟨rfl, holds⟩

theorem dayOf_eq_some_iff {instant : Instant} {day : Int} :
    dayOf instant = some day ↔ day = instant / millisPerDay ∧ Calendar.inRange day := by
  simp only [dayOf]
  split
  · rename_i within
    rw [Option.some.injEq]
    constructor
    · rintro rfl
      exact ⟨rfl, within⟩
    · rintro ⟨rfl, -⟩
      rfl
  · rename_i beyond
    constructor
    · nofun
    · rintro ⟨rfl, within⟩
      exact absurd within beyond

theorem startOfDay_eq_some_iff {day : Int} {start : Instant} :
    startOfDay day = some start ↔ start = day * millisPerDay ∧ Calendar.inRange day := by
  unfold startOfDay
  split
  · simp [*, eq_comm]
  · simp [*]

theorem roundDay_eq_some_iff {f : Int → Int} {instant start : Instant} :
    ((dayOf instant).bind fun day => startOfDay (f day)) = some start ↔
      start = f (instant / millisPerDay) * millisPerDay ∧
        Calendar.inRange (instant / millisPerDay) ∧ Calendar.inRange (start / millisPerDay) := by
  rw [Option.bind_eq_some_iff]
  constructor
  · rintro ⟨day, found, h⟩
    obtain ⟨rfl, within⟩ := dayOf_eq_some_iff.mp found
    obtain ⟨rfl, begins⟩ := startOfDay_eq_some_iff.mp h
    refine ⟨rfl, within, ?_⟩
    rwa [Int.mul_ediv_cancel _ (by decide)]
  · rintro ⟨rfl, within, begins⟩
    rw [Int.mul_ediv_cancel _ (by decide)] at begins
    exact ⟨_, dayOf_eq_some_iff.mpr ⟨rfl, within⟩, startOfDay_eq_some_iff.mpr ⟨rfl, begins⟩⟩

/-- Rounding down gives the start of the interval that holds an instant, if the start exists and the
calendar has the day of the instant where it is asked. -/
theorem floor_eq_some_iff {interval : Interval} {instant start : Instant} :
    interval.floor instant = some start ↔ start = interval.startAt (interval.numberOf instant) ∧
      (interval.width? = none → Calendar.inRange (instant / millisPerDay)) ∧
        interval.InRange start := by
  have multiple {width : Int} : align instant width = some start ↔
      start = instant / width * width ∧
        (some width = none → Calendar.inRange (instant / millisPerDay)) ∧ Word64.Holds start := by
    rw [align, fits?_iff rfl]
    simp
  have dated {f : Int → Int} {first : Int} (same : f (instant / millisPerDay) = first) :
      ((dayOf instant).bind fun day => startOfDay (f day)) = some start ↔
        start = first * millisPerDay ∧
          ((none : Option Int) = none → Calendar.inRange (instant / millisPerDay)) ∧
          Calendar.inRange (start / millisPerDay) := by
    rw [roundDay_eq_some_iff, same]
    simp
  cases interval with
  | fixed width => exact multiple
  | unit u =>
      cases u with
      | minute | hour | day => exact multiple
      | week =>
          have monday (day : Int) : day - (day + 3) % 7 = 7 * ((day + 3) / 7) - 3 := by omega
          exact dated (monday _)
      | month | quarter | year =>
          have aligned (month months : Int) :
              alignMonth month months = months * ((month + 2) / months) - 2 := by
            rw [alignMonth, mul_comm]
          exact dated (congrArg monthStart (aligned _ _))

theorem floor_between {interval : Interval} (positive : interval.Positive) {instant start : Instant}
    (h : interval.floor instant = some start) :
    ∃ n, start = interval.startAt n ∧ interval.startAt n ≤ instant ∧
      instant < interval.startAt (n + 1) :=
  ⟨_, (floor_eq_some_iff.mp h).1, around_numberOf positive instant⟩

/-! ## The next start -/

/-- Every month has a first day, so adding months does not have to fall back on the last day. -/
theorem add_months {u : Unit} {months n : Int} (is : u.span = .months months) {stop : Instant} :
    (unit u).next (monthStart (months * n - 2) * millisPerDay) = some stop ↔
      stop = monthStart (months * (n + 1) - 2) * millisPerDay ∧
        Calendar.inRange (monthStart (months * n - 2) * millisPerDay / millisPerDay) ∧
        Calendar.inRange (stop / millisPerDay) := by
  have dayOf_mul (day : Int) : day * millisPerDay / millisPerDay = day :=
    Int.mul_ediv_cancel _ (by decide)
  have later : months * n - 2 + months = months * (n + 1) - 2 := by
    rw [mul_add]
    omega
  have longer := monthStart_succ (months * (n + 1) - 2)
  simp only [next, is, dayOf, dayOf_mul]
  by_cases within : Calendar.inRange (monthStart (months * n - 2))
  · simp only [within, if_true, Option.bind_eq_bind, Option.bind_some, monthOf_monthStart, later,
      sub_self, Int.mul_emod_left, add_zero]
    rw [min_eq_left (by omega), add_zero, Option.ite_none_right_eq_some, Option.some.injEq]
    constructor
    · rintro ⟨begins, rfl⟩
      exact ⟨rfl, trivial, by rwa [dayOf_mul]⟩
    · rintro ⟨rfl, -, begins⟩
      exact ⟨by rwa [dayOf_mul] at begins, rfl⟩
  · simp [within]

/-- Adding a width finds the next start if it has 64 bits, adding months if the calendar has both
starts. -/
theorem next_startAt_iff {interval : Interval} {n : Int} {stop : Instant} :
    interval.next (interval.startAt n) = some stop ↔ stop = interval.startAt (n + 1) ∧
      match interval with
      | unit .month | unit .quarter | unit .year =>
          interval.InRange (interval.startAt n) ∧ interval.InRange stop
      | _ => Word64.Holds stop := by
  have wider {n width : Int} : n * width + width = (n + 1) * width := by rw [add_mul, one_mul]
  cases interval with
  | fixed width => exact fits?_iff wider
  | unit u =>
      cases u with
      | minute | hour | day => exact fits?_iff wider
      | week =>
          refine fits?_iff ?_
          show (7 * n - 3) * millisPerDay + 7 * 86400000 = (7 * (n + 1) - 3) * millisPerDay
          unfold millisPerDay
          omega
      | month | quarter | year => exact add_months rfl

/-- The interval after the one that starts at an instant has the next number. -/
theorem next_startAt {interval : Interval} {n : Int} {stop : Instant}
    (h : interval.next (interval.startAt n) = some stop) : stop = interval.startAt (n + 1) :=
  (next_startAt_iff.mp h).1

/-- Between the start of an interval and the next one lie the instants that are rounded down to it. -/
theorem floor_eq_iff {interval : Interval} (positive : interval.Positive) {n : Int}
    {stop instant start : Instant} (next : interval.next (interval.startAt n) = some stop)
    (floor : interval.floor instant = some start) :
    start = interval.startAt n ↔ interval.startAt n ≤ instant ∧ instant < stop := by
  obtain rfl := next_startAt next
  obtain ⟨rfl, -⟩ := floor_eq_some_iff.mp floor
  constructor
  · intro same
    rw [← (startAt_strictMono positive).injective same]
    exact around_numberOf positive instant
  · rintro ⟨begun, ends⟩
    rw [numberOf_eq positive begun ends]

/-! ## Intervals that are read -/

theorem positive_ofWidthText? {text : String} {interval : Interval}
    (h : ofWidthText? text = some interval) : interval.Positive := by
  unfold ofWidthText? at h
  obtain ⟨unit, -, h⟩ := Option.bind_eq_some_iff.mp h
  split at h
  · cases h
  · obtain ⟨amount, -, h⟩ := Option.bind_eq_some_iff.mp h
    obtain ⟨width, -, h⟩ := Option.bind_eq_some_iff.mp h
    split at h
    · cases h
      assumption
    · cases h

theorem positive_ofUnitText? {text : String} {interval : Interval}
    (h : ofUnitText? text = some interval) : interval.Positive := by
  obtain ⟨unit, -, rfl⟩ := Option.map_eq_some_iff.mp h
  trivial

end Interval

end Rollup.Calendar
