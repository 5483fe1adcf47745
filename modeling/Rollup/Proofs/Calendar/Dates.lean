import Rollup.Proofs.Calendar.Partition

/-! # Days and their dates

The date of a day counts back to the day, and its fields are those of a date that exists. The days of a
span of years lie between the first of January of one year and the last of December of another.
-/

namespace Rollup.Calendar

theorem monthOf_lt_iff {day month : Int} : monthOf day < month ↔ day < monthStart month := by
  obtain ⟨begun, ends⟩ := monthStart_monthOf day
  constructor
  · intro before
    exact ends.trans_le (monthStart_strictMono.monotone before)
  · intro before
    exact monthStart_strictMono.lt_iff_lt.mp (begun.trans_lt before)

theorem le_monthOf_iff {day month : Int} : month ≤ monthOf day ↔ monthStart month ≤ day := by
  rw [← not_lt, monthOf_lt_iff, not_lt]

/-- December has 31 days. -/
theorem monthStart_january (year : Int) :
    monthStart (12 * year + 10) = monthStart (12 * year + 9) + 31 := by
  have december : (12 * year + 9) / 12 = year ∧ (12 * year + 9) % 12 = 9 := by omega
  have january : (12 * year + 10) / 12 = year ∧ (12 * year + 10) % 12 = 10 := by omega
  simp only [monthStart, december, january]
  omega

namespace Date

variable {day low high : Int}

theorem monthNumber_ofDay (day : Int) :
    monthNumber (ofDay day).year (ofDay day).month = monthOf day := by
  simp only [monthNumber, ofDay]
  omega

theorem toDay_ofDay (day : Int) : (ofDay day).toDay = day := by
  have begun := (monthStart_monthOf day).1
  rw [toDay, monthNumber_ofDay]
  simp only [ofDay]
  omega

theorem toDay_mk (year : Int) (month day : Nat) :
    (Date.mk year month day).toDay = monthStart (12 * year + month - 3) + day - 1 := rfl

/-- The years of a date bound its day, and the other way round. -/
theorem between_iff : (Date.mk low 1 1).toDay ≤ day ∧ day ≤ (Date.mk high 12 31).toDay ↔
    low ≤ (ofDay day).year ∧ (ofDay day).year ≤ high := by
  have first : (Date.mk low 1 1).toDay = monthStart (12 * low - 2) := by
    rw [toDay_mk, show 12 * low + ((1 : Nat) : Int) - 3 = 12 * low - 2 by omega]
    omega
  have last : (Date.mk high 12 31).toDay = monthStart (12 * high + 10) - 1 := by
    rw [toDay_mk, show 12 * high + ((12 : Nat) : Int) - 3 = 12 * high + 9 by omega,
      monthStart_january]
    omega
  rw [first, last, ← le_monthOf_iff, Int.le_sub_one_iff, ← monthOf_lt_iff]
  simp only [ofDay]
  omega

theorem inRange_iff_year : inRange day ↔
    minYear ≤ (ofDay day).year ∧ (ofDay day).year ≤ maxYear := by
  rw [inRange_iff, between_iff]

theorem month_ofDay (day : Int) : 1 ≤ (ofDay day).month ∧ (ofDay day).month ≤ 12 := by
  simp only [ofDay]
  omega

/-- The day of the month lies within the month. -/
theorem day_ofDay (day : Int) : 1 ≤ (ofDay day).day ∧
    ((ofDay day).day : Int) ≤ monthStart (monthOf day + 1) - monthStart (monthOf day) := by
  obtain ⟨begun, ends⟩ := monthStart_monthOf day
  simp only [ofDay]
  omega

/-- A day within the years of the calendar has a date that exists. -/
theorem isValid_ofDay (within : inRange day) : (ofDay day).isValid := by
  obtain ⟨least, most⟩ := inRange_iff_year.mp within
  obtain ⟨january, december⟩ := month_ofDay day
  obtain ⟨first, last⟩ := day_ofDay day
  simp only [isValid, monthNumber_ofDay, Bool.and_eq_true, decide_eq_true_eq]
  exact ⟨⟨⟨⟨⟨least, most⟩, january⟩, december⟩, first⟩, last⟩

end Date

end Rollup.Calendar
