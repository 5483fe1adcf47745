import Rollup.Proofs.Calendar.Dates

/-! # Instants as they are written

What is written for an instant is the form with an offset: fields of fixed width, a fraction of three
digits and a `Z`. It has the shape of none of the forms that are tried before it, and each field reads
back as the number it was written for. A year takes four digits if it is from 0 to 9999; any other is
written with a sign or more digits, which that form does not have.
-/

namespace Rollup.Calendar.Instant

open Binary64 (isDigit natOfDigits)

/-! ## Fields -/

section Fields

variable {width n : Nat}

theorem isDigit_of_core {c : Char} (digit : c.isDigit) : isDigit c := by
  simpa [Char.isDigit, isDigit, Char.le_def] using digit

theorem natOfDigits_eq (digits : List Char) : natOfDigits digits = Nat.ofDigitChars 10 digits 0 := rfl

theorem toList_padded (width n : Nat) : (padded width n).toList =
    List.replicate (width - (Nat.toDigits 10 n).length) '0' ++ Nat.toDigits 10 n := by
  simp only [padded, String.toList_ofList]

/-- A number that fits a width takes exactly that many digits. -/
theorem length_padded (positive : 0 < width) (fits : n < 10 ^ width) :
    (padded width n).toList.length = width := by
  have short := (Nat.length_toDigits_le_iff (by decide) positive).mpr fits
  rw [toList_padded, List.length_append, List.length_replicate]
  omega

theorem isDigit_padded {c : Char} (member : c ∈ (padded width n).toList) : isDigit c := by
  rw [toList_padded, List.mem_append] at member
  rcases member with zero | digit
  · rw [(List.mem_replicate.mp zero).2]
    decide
  · exact isDigit_of_core (Nat.isDigit_of_mem_toDigits (by decide) le_rfl digit)

theorem natOfDigits_padded : natOfDigits (padded width n).toList = n := by
  rw [natOfDigits_eq, toList_padded, Nat.ofDigitChars_append, Nat.ofDigitChars_replicate_zero,
    Nat.mul_zero, Nat.ofDigitChars_ten_toDigits]

theorem exactly?_padded (positive : 0 < width) (fits : n < 10 ^ width) (rest : List Char) :
    exactly? width ((padded width n).toList ++ rest) = some (n, rest) := by
  have length := length_padded positive fits
  have digits : (padded width n).toList.all isDigit := List.all_eq_true.mpr fun _ => isDigit_padded
  rw [exactly?, List.take_left' length, List.drop_left' length]
  simp only [length, digits, and_self, if_true, natOfDigits_padded]

/-- Three digits are a fraction to the millisecond. -/
theorem fraction?_padded (fits : n < 1000) {stop : Char} (ends : isDigit stop = false)
    (rest : List Char) :
    fraction? ('.' :: ((padded 3 n).toList ++ stop :: rest)) = some (n, stop :: rest) := by
  have length : (padded 3 n).toList.length = 3 := length_padded (by decide) fits
  have filled : (padded 3 n).toList.isEmpty = false := by
    rw [List.isEmpty_eq_false_iff_exists_mem]
    exact List.exists_mem_of_length_pos (by omega)
  have taken : ((padded 3 n).toList ++ stop :: rest).takeWhile isDigit = (padded 3 n).toList := by
    rw [List.takeWhile_append_of_pos fun _ => isDigit_padded, List.takeWhile_cons, ends]
    exact List.append_nil _
  have left : ((padded 3 n).toList ++ stop :: rest).dropWhile isDigit = stop :: rest := by
    rw [List.dropWhile_append_of_pos fun _ => isDigit_padded, List.dropWhile_cons, ends]
    rfl
  simp only [fraction?, taken, left, filled, List.take_left' length, natOfDigits_padded]
  rfl

theorem char?_cons (c : Char) (rest : List Char) : char? c (c :: rest) = some rest := if_pos rfl

end Fields

/-! ## The form -/

/-- The characters that are written for a year of four digits and the rest of a date and time. -/
def written (year : Nat) (date : Date) (time : Time) : List Char :=
  (padded 4 year).toList ++ '-' :: ((padded 2 date.month).toList ++
    '-' :: ((padded 2 date.day).toList ++ 'T' :: ((padded 2 time.hour).toList ++
    ':' :: ((padded 2 time.minute).toList ++ ':' :: ((padded 2 time.second).toList ++
    '.' :: ((padded 3 time.millis).toList ++ ['Z']))))))

/-- The numbers of a date and time fit the width of their fields. -/
structure Fits (year : Nat) (date : Date) (time : Time) : Prop where
  year : year < 10 ^ 4
  month : date.month < 10 ^ 2
  day : date.day < 10 ^ 2
  hour : time.hour < 10 ^ 2
  minute : time.minute < 10 ^ 2
  second : time.second < 10 ^ 2
  millis : time.millis < 1000

section Form

variable {year : Nat} {date : Date} {time : Time}

/-- Each field is read up to the character behind it. -/
theorem ofOffsetForm?_written (fits : Fits year date time) :
    ofOffsetForm? (written year date time) = ofParts? ⟨year, date.month, date.day⟩ time := by
  unfold ofOffsetForm? written
  dsimp only [Option.bind_eq_bind]
  rw [exactly?_padded (by decide) fits.year, Option.bind_some, char?_cons, Option.bind_some,
    exactly?_padded (by decide) fits.month, Option.bind_some, char?_cons, Option.bind_some,
    exactly?_padded (by decide) fits.day, Option.bind_some]
  dsimp only
  rw [if_pos (.inl rfl), Option.bind_some,
    exactly?_padded (by decide) fits.hour, Option.bind_some, char?_cons, Option.bind_some,
    exactly?_padded (by decide) fits.minute, Option.bind_some, char?_cons, Option.bind_some,
    exactly?_padded (by decide) fits.second, Option.bind_some,
    fraction?_padded fits.millis (by decide), Option.bind_some]
  cases ofParts? ⟨year, date.month, date.day⟩ time with
  | none => rfl
  | some instant => exact congrArg some (Int.sub_zero instant)

/-- What is written starts with a digit, with a hyphen behind it, and ends in `Z`. -/
theorem ends_written (fits : year < 10 ^ 4) (date : Date) (time : Time) :
    (∃ first rest, written year date time = first :: rest ∧ isDigit first ∧ '-' ∈ rest) ∧
      ∃ front, written year date time = front ++ ['Z'] := by
  have length : (padded 4 year).toList.length = 4 := length_padded (by decide) fits
  constructor
  · cases digits : (padded 4 year).toList with
    | nil => simp [digits] at length
    | cons first rest =>
        refine ⟨first, _, by rw [written, digits, List.cons_append], ?_, ?_⟩
        · exact isDigit_padded (digits ▸ List.mem_cons_self)
        · exact List.mem_append_right rest List.mem_cons_self
  · rw [← List.getLast?_eq_some_iff]
    simp [written, List.getLast?_cons]

theorem not_isBlank_of_isDigit {c : Char} (digit : isDigit c) : Text.isBlank c = false := by
  simp only [isDigit, Bool.and_eq_true, decide_eq_true_eq, Char.le_def, UInt32.le_iff_toNat_le] at digit
  have least : 48 ≤ c.toNat := digit.1
  have most : c.toNat ≤ 57 := digit.2
  simp only [Text.isBlank, Bool.or_eq_false_iff, Bool.and_eq_false_iff, decide_eq_false_iff_not,
    beq_eq_false_iff_ne]
  omega

/-- Neither end is blank. -/
theorem trim_written (fits : year < 10 ^ 4) :
    Text.trim (written year date time) = written year date time := by
  obtain ⟨⟨first, rest, starts, digit, -⟩, front, ends⟩ := ends_written fits date time
  have begun : (written year date time).dropWhile Text.isBlank = written year date time := by
    rw [starts, List.dropWhile_cons, not_isBlank_of_isDigit digit]
    rfl
  have closed : (written year date time).reverse.dropWhile Text.isBlank =
      (written year date time).reverse := by
    rw [ends, List.reverse_append]
    rfl
  rw [Text.trim, begun, closed, List.reverse_reverse]

/-- A hyphen behind a digit makes it no numeral. -/
theorem ofNumeral?_written (fits : year < 10 ^ 4) : ofNumeral? (written year date time) = none := by
  obtain ⟨⟨first, rest, starts, digit, hyphen⟩, -⟩ := ends_written fits date time
  have mixed : ¬ (first :: rest).all isDigit := by
    intro digits
    cases List.all_eq_true.mp digits '-' (List.mem_cons_of_mem _ hyphen)
  rw [starts]
  unfold ofNumeral?
  split
  next same =>
    split at same
    next minus =>
      rw [(List.cons.inj minus).1] at digit
      cases digit
    next plus =>
      rw [(List.cons.inj plus).1] at digit
      cases digit
    next =>
      obtain ⟨rfl, rfl⟩ := Prod.mk.inj same
      rw [if_pos (.inr mixed)]

theorem ofText?_written (fits : Fits year date time) {instant : Instant}
    (exist : ofParts? ⟨year, date.month, date.day⟩ time = some instant) :
    ofText? (String.ofList (written year date time)) = some instant := by
  rw [ofText?, String.toList_ofList, trim_written fits.year, ofNumeral?_written fits.year,
    ofOffsetForm?_written fits, exist]
  rfl

end Form

/-! ## Reading back -/

/-- Date of an instant. -/
def date (instant : Instant) : Date := Date.ofDay (instant / millisPerDay)

/-- Time of day of an instant. -/
def time (instant : Instant) : Time :=
  let millis := (instant % millisPerDay).toNat
  ⟨millis / 3600000, millis / 60000 % 60, millis / 1000 % 60, millis % 1000⟩

/-- An instant of the years 0000 to 9999. -/
def FourDigitYear (instant : Instant) : Prop := 0 ≤ instant.date.year ∧ instant.date.year ≤ 9999

section Instants

variable {instant : Instant}

theorem time_isValid (instant : Instant) : instant.time.isValid := by
  have day : instant % millisPerDay < millisPerDay := Int.emod_lt_of_pos _ (by decide)
  simp only [Time.isValid, Bool.and_eq_true, decide_eq_true_eq]
  simp only [time, millisPerDay] at *
  omega

theorem toMillis_time (instant : Instant) : instant.time.toMillis = instant % millisPerDay := by
  have start : 0 ≤ instant % millisPerDay := Int.emod_nonneg _ (by decide)
  simp only [Time.toMillis, time]
  simp only [millisPerDay] at *
  omega

/-- The date and the time of an instant within the calendar make up the instant. -/
theorem ofParts?_of_inRange (within : Calendar.inRange (instant / millisPerDay)) :
    ofParts? instant.date instant.time = some instant := by
  have valid : instant.date.isValid := Date.isValid_ofDay within
  have day : instant.date.toDay = instant / millisPerDay := Date.toDay_ofDay _
  rw [ofParts?, valid, time_isValid, day, toMillis_time]
  exact congrArg some (Int.ediv_mul_add_emod ..)

theorem inRange_of_fourDigitYear (year : FourDigitYear instant) :
    Calendar.inRange (instant / millisPerDay) := by
  obtain ⟨least, most⟩ := year
  refine Date.inRange_iff_year.mpr ⟨le_trans ?_ least, le_trans most ?_⟩
  · decide
  · decide

/-- The first of these instants is the start of year 0000, and the start of year 10000 is past them. -/
theorem fourDigitYear_iff {millis : Int} : FourDigitYear millis ↔
    -62167219200000 ≤ millis ∧ millis < 253402300800000 := by
  have first : (Date.mk 0 1 1).toDay = -719528 := by decide
  have last : (Date.mk 9999 12 31).toDay = 2932896 := by decide
  rw [FourDigitYear, date, ← Date.between_iff, first, last, millisPerDay]
  omega

theorem fits_of_fourDigitYear (year : FourDigitYear instant) :
    Fits instant.date.year.natAbs instant.date instant.time := by
  obtain ⟨least, most⟩ := year
  have time := time_isValid instant
  simp only [Time.isValid, Bool.and_eq_true, decide_eq_true_eq] at time
  have month : instant.date.month ≤ 12 := (Date.month_ofDay _).2
  have day : (instant.date.day : Int) ≤ _ := (Date.day_ofDay _).2
  have length := (monthStart_succ (monthOf (instant / millisPerDay))).2
  have millis : instant.time.millis < 1000 := Nat.mod_lt _ (by decide)
  constructor <;> omega

theorem toText?_of_inRange (within : Calendar.inRange (instant / millisPerDay)) :
    toText? instant = some (yearText instant.date.year ++ "-" ++ padded 2 instant.date.month ++ "-"
      ++ padded 2 instant.date.day ++ "T" ++ padded 2 instant.time.hour ++ ":"
      ++ padded 2 instant.time.minute ++ ":" ++ padded 2 instant.time.second ++ "."
      ++ padded 3 instant.time.millis ++ "Z") := if_pos within

theorem toText?_of_fourDigitYear (year : FourDigitYear instant) : toText? instant =
    some (String.ofList (written instant.date.year.natAbs instant.date instant.time)) := by
  have unsigned : yearText instant.date.year = padded 4 instant.date.year.natAbs := by
    rw [yearText, if_neg (not_lt.mpr year.1), if_neg (not_lt.mpr year.2)]
    exact String.empty_append
  rw [toText?_of_inRange (inRange_of_fourDigitYear year), unsigned]
  refine congrArg some (String.toList_injective ?_)
  simp [written]

/-- What is written for an instant reads back as the instant. -/
theorem ofText?_toText? (year : FourDigitYear instant) :
    ∃ text, toText? instant = some text ∧ ofText? text = some instant := by
  have same : (⟨(instant.date.year.natAbs : Nat), instant.date.month, instant.date.day⟩ : Date) =
      instant.date := by
    rw [Int.natAbs_of_nonneg year.1]
  refine ⟨_, toText?_of_fourDigitYear year, ofText?_written (fits_of_fourDigitYear year) ?_⟩
  rw [same, ofParts?_of_inRange (inRange_of_fourDigitYear year)]

end Instants

end Rollup.Calendar.Instant
