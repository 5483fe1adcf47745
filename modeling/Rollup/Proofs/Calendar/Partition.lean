import Rollup.Proofs.Calendar.Interval

/-! # Time cut into intervals

Rounding down and going on to the next start agree on where an interval begins and ends, so every
instant lies in exactly one interval. A result that does not exist lies outside the range of the
interval, and no result leaves 64 bits.
-/

namespace Rollup.Calendar

theorem inRange_iff {day : Int} : inRange day ↔
    (Date.mk Date.minYear 1 1).toDay ≤ day ∧ day ≤ (Date.mk Date.maxYear 12 31).toDay := by
  simp [inRange]

namespace Interval

open Instant (millisPerDay)

variable {interval : Interval} {instant start : Instant}

/-! ## The range -/

/-- The years of the calendar have far fewer milliseconds than 64 bits can count. -/
theorem holds_of_inRange (within : interval.InRange instant) : Word64.Holds instant := by
  unfold InRange at within
  split at within
  · exact within
  · have first : (Date.mk Date.minYear 1 1).toDay = -96465292 := by decide
    have last : (Date.mk Date.maxYear 12 31).toDay = 95026236 := by decide
    rw [inRange_iff, first, last] at within
    unfold millisPerDay at within
    unfold Word64.Holds Word64.least Word64.greatest
    omega

theorem inRange_between {low high : Instant} (first : interval.InRange low)
    (last : interval.InRange high) (least : low ≤ instant) (most : instant ≤ high) :
    interval.InRange instant := by
  unfold InRange at *
  cases width : interval.width? with
  | some width =>
      simp only [width] at *
      exact ⟨first.1.trans least, most.trans last.2⟩
  | none =>
      simp only [width, inRange_iff] at *
      have positive : 0 < millisPerDay := by decide
      constructor
      · exact first.1.trans (Int.ediv_le_ediv positive least)
      · exact (Int.ediv_le_ediv positive most).trans last.2

/-- Dividing by a width does not leave 64 bits. -/
theorem holds_ediv {width : Int} (positive : 0 < width) (holds : Word64.Holds instant) :
    Word64.Holds (instant / width) := by
  obtain ⟨least, most⟩ := holds
  constructor
  · apply Int.le_ediv_of_mul_le positive
    unfold Word64.least at *
    nlinarith
  · apply Int.ediv_le_of_le_mul positive
    unfold Word64.greatest at *
    nlinarith

theorem width_pos (positive : interval.Positive) {width : Int} (is : width ∈ interval.width?) :
    0 < width := by
  cases interval with
  | fixed n =>
      cases is
      exact positive
  | unit u =>
      cases u <;> cases is
      all_goals decide

/-! ## Starts -/

theorem numberOf_startAt (positive : interval.Positive) (n : Int) :
    interval.numberOf (interval.startAt n) = n :=
  numberOf_eq positive le_rfl (startAt_strictMono positive (lt_add_one n))

theorem numberOf_mono (positive : interval.Positive) {x y : Instant} (le : x ≤ y) :
    interval.numberOf x ≤ interval.numberOf y := by
  have first := (around_numberOf positive x).1
  have last := (around_numberOf positive y).2
  have before := (startAt_strictMono positive).lt_iff_lt.mp ((first.trans le).trans_lt last)
  omega

/-- The instants that rounding down keeps are the starts within the range. -/
theorem floor_eq_self_iff (positive : interval.Positive) :
    interval.floor start = some start ↔ interval.InRange start ∧ ∃ n, start = interval.startAt n := by
  rw [floor_eq_some_iff]
  constructor
  · rintro ⟨same, -, within⟩
    exact ⟨within, _, same⟩
  · rintro ⟨within, n, rfl⟩
    refine ⟨by rw [numberOf_startAt positive], fun dated => ?_, within⟩
    simpa only [InRange, dated] using within

theorem floor_floor (positive : interval.Positive) (h : interval.floor instant = some start) :
    interval.floor start = some start := by
  obtain ⟨same, -, within⟩ := floor_eq_some_iff.mp h
  exact (floor_eq_self_iff positive).mpr ⟨within, _, same⟩

theorem floor_mono (positive : interval.Positive) {x y a b : Instant} (hx : interval.floor x = some a)
    (hy : interval.floor y = some b) (le : x ≤ y) : a ≤ b := by
  rw [(floor_eq_some_iff.mp hx).1, (floor_eq_some_iff.mp hy).1]
  exact (startAt_strictMono positive).monotone (numberOf_mono positive le)

/-- An instant of 64 bits is rounded down exactly if both it and the start are within the range. -/
theorem floor_eq_none_iff (holds : Word64.Holds instant) :
    interval.floor instant = none ↔ ¬ (interval.InRange instant ∧
      interval.InRange (interval.startAt (interval.numberOf instant))) := by
  have own : interval.InRange instant ↔
      (interval.width? = none → Calendar.inRange (instant / millisPerDay)) := by
    unfold InRange
    cases interval.width? with
    | some width => simp [holds]
    | none => simp
  rw [Option.eq_none_iff_forall_ne_some, own]
  constructor
  · rintro none ⟨dated, within⟩
    exact none _ (floor_eq_some_iff.mpr ⟨rfl, dated, within⟩)
  · rintro beyond start floor
    obtain ⟨rfl, dated, within⟩ := floor_eq_some_iff.mp floor
    exact beyond ⟨dated, within⟩

theorem holds_of_next {n : Int} {stop : Instant}
    (h : interval.next (interval.startAt n) = some stop) : Word64.Holds stop := by
  obtain ⟨-, range⟩ := next_startAt_iff.mp h
  split at range
  · exact holds_of_inRange range.2
  · exact holds_of_inRange range.2
  · exact holds_of_inRange range.2
  · exact range

/-- The next start is found if it is within the range. -/
theorem next_of_inRange {n : Int} (here : interval.InRange (interval.startAt n))
    (there : interval.InRange (interval.startAt (n + 1))) :
    interval.next (interval.startAt n) = some (interval.startAt (n + 1)) := by
  refine next_startAt_iff.mpr ⟨rfl, ?_⟩
  split
  · exact ⟨here, there⟩
  · exact ⟨here, there⟩
  · exact ⟨here, there⟩
  · exact holds_of_inRange there

/-- Intervals cut the line of time. An instant lies between the start of one interval and that of the
next. Rounding it down gives that start, which is not after the instant and is kept when it is rounded
down again; rounding down keeps the order of instants. The next start comes after the instant, and
what lies before it, from the start on, is rounded down to the start. All results have 64 bits, as has
the quotient they are computed from, and there is no result only where it would be out of range. -/
theorem floor_partitions (positive : interval.Positive) {x : Instant} (holds : Word64.Holds x)
    (y : Instant) :
    (∀ width ∈ interval.width?, Word64.Holds (x / width)) ∧
    ∃ n, interval.startAt n ≤ x ∧ x < interval.startAt (n + 1) ∧
      (interval.floor x = none ↔
        ¬ (interval.InRange x ∧ interval.InRange (interval.startAt n))) ∧
      ∀ start, interval.floor x = some start →
        Word64.Holds start ∧ start ≤ x ∧ interval.floor start = some start ∧
        (∀ other, interval.floor y = some other → x ≤ y → start ≤ other) ∧
        (interval.next start = none → ¬ interval.InRange (interval.startAt (n + 1))) ∧
        ∀ stop, interval.next start = some stop →
          Word64.Holds stop ∧ x < stop ∧
          (∀ other, interval.floor y = some other → start ≤ y → y < stop → other = start) ∧
          (∀ other, interval.floor stop = some other → other = stop) := by
  obtain ⟨begun, ends⟩ := around_numberOf positive x
  refine ⟨fun width is => holds_ediv (width_pos positive is) holds, interval.numberOf x, begun, ends,
    floor_eq_none_iff holds, fun start floor => ?_⟩
  have kept := floor_floor positive floor
  obtain ⟨rfl, -, within⟩ := floor_eq_some_iff.mp floor
  refine ⟨holds_of_inRange within, begun, kept, fun other => floor_mono positive floor, ?_, ?_⟩
  · intro none there
    rw [next_of_inRange within there] at none
    cases none
  · intro stop next
    refine ⟨holds_of_next next, ?_, ?_, ?_⟩
    · rw [next_startAt next]
      exact ends
    · intro other floor first last
      exact (floor_eq_iff positive next floor).mpr ⟨first, last⟩
    · intro other floor
      obtain ⟨rfl, -⟩ := floor_eq_some_iff.mp floor
      rw [next_startAt next, numberOf_startAt positive]

/-- The leap day of 2024 belongs to February to its last millisecond. -/
theorem floor_partitions_leapDay : (unit .month).Positive ∧ Word64.Holds 1709208000000 ∧
    (unit .month).floor 1709208000000 = some 1706745600000 ∧
    (unit .month).next 1706745600000 = some 1709251200000 ∧
    ∀ other, (unit .month).floor 1709251199999 = some other → other = 1706745600000 := by
  have positive : (unit .month).Positive := trivial
  have holds : Word64.Holds 1709208000000 := by decide
  have floor : (unit .month).floor 1709208000000 = some 1706745600000 := by decide
  have next : (unit .month).next 1706745600000 = some 1709251200000 := by decide
  obtain ⟨-, n, -, -, -, cut⟩ := floor_partitions positive holds 1709251199999
  obtain ⟨-, -, -, -, -, later⟩ := cut _ floor
  obtain ⟨-, -, own, -⟩ := later _ next
  exact ⟨positive, holds, floor, next, fun other rounded => own other rounded (by decide) (by decide)⟩

end Interval

end Rollup.Calendar
