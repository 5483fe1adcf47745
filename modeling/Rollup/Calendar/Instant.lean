import Rollup.Binary64.Reader
import Rollup.Calendar.Date
import Rollup.Json.Basic
import Rollup.Text.Blank

/-! # Instants

An instant is a number of milliseconds since the start of 1970 in universal time. Four written forms
are read: a plain number of milliseconds, a date and time with an offset, a date and time without
one, and a date. Instants are written as a date and time that ends in `Z`.
-/

namespace Rollup.Calendar

abbrev Instant := Int

namespace Instant

open Binary64 (isDigit natOfDigits)

def millisPerDay : Int := 86400000

/-- A time of day. Second 60 is the instant after second 59. -/
structure Time where
  hour : Nat
  minute : Nat
  second : Nat
  millis : Nat
  deriving DecidableEq, Repr

def Time.isValid (time : Time) : Bool := time.hour ≤ 23 && time.minute ≤ 59 && time.second ≤ 60

def Time.toMillis (time : Time) : Int :=
  ((time.hour * 60 + time.minute) * 60 + time.second) * 1000 + time.millis

/-- The instant of a date and time, if both exist. -/
def ofParts? (date : Date) (time : Time) : Option Instant :=
  if date.isValid && time.isValid then some (date.toDay * millisPerDay + time.toMillis) else none

/-! ## Fields

Each reader takes a field from the front of a text and gives what is left. -/

def char? (expected : Char) : List Char → Option (List Char)
  | [] => none
  | c :: rest => if c = expected then some rest else none

/-- A number of exactly so many digits. -/
def exactly? (width : Nat) (s : List Char) : Option (Nat × List Char) :=
  let digits := s.take width
  if digits.length = width ∧ digits.all isDigit then some (natOfDigits digits, s.drop width)
  else none

/-- A number of at least one digit, and of no more digits than the width allows. -/
def upTo? (width : Nat) (s : List Char) : Option (Nat × List Char) :=
  let digits := (s.take width).takeWhile isDigit
  if digits.isEmpty then none else some (natOfDigits digits, s.drop digits.length)

/-- Like `upTo?`, behind any blanks. -/
def loose? (width : Nat) (s : List Char) : Option (Nat × List Char) :=
  upTo? width (s.dropWhile Text.isBlank)

/-- A year behind any blanks: four digits at most, or any number of them with a sign. -/
def year? (s : List Char) : Option (Int × List Char) :=
  match s.dropWhile Text.isBlank with
  | '-' :: rest => (upTo? rest.length rest).map fun (n, rest) => (-(n : Int), rest)
  | '+' :: rest => (upTo? rest.length rest).map fun (n, rest) => ((n : Int), rest)
  | rest => (upTo? 4 rest).map fun (n, rest) => ((n : Int), rest)

/-- A fraction of a second, if there is one, cut to milliseconds. -/
def fraction? : List Char → Option (Nat × List Char)
  | '.' :: rest =>
      let digits := rest.takeWhile isDigit
      if digits.isEmpty then none
      else some (natOfDigits ((digits ++ ['0', '0']).take 3), rest.dropWhile isDigit)
  | s => some (0, s)

/-- An offset from universal time in minutes: `Z`, or hours and minutes with a sign. -/
def offset? : List Char → Option (Int × List Char)
  | [] => none
  | sign :: rest =>
      if sign = 'Z' ∨ sign = 'z' then some (0, rest)
      else if sign = '+' ∨ sign = '-' ∨ sign = '\u2212' then do
        let (hours, rest) ← exactly? 2 rest
        let rest ← char? ':' rest
        let (minutes, rest) ← exactly? 2 rest
        if 23 < hours ∨ 59 < minutes then none
        else
          let n : Int := hours * 60 + minutes
          some (if sign = '+' then n else -n, rest)
      else none

/-! ## Forms -/

/-- A whole number of milliseconds, if it fits in 64 bits. -/
def ofNumeral? (s : List Char) : Option Instant :=
  let (negative, digits) := match s with
    | '-' :: rest => (true, rest)
    | '+' :: rest => (false, rest)
    | rest => (false, rest)
  if digits.isEmpty ∨ ¬ digits.all isDigit then none
  else
    let n : Int := natOfDigits digits
    Word64.fits? (if negative then -n else n)

/-- A date and time with fields of fixed width and an offset. -/
def ofOffsetForm? (s : List Char) : Option Instant := do
  let (year, s) ← exactly? 4 s
  let s ← char? '-' s
  let (month, s) ← exactly? 2 s
  let s ← char? '-' s
  let (day, s) ← exactly? 2 s
  let s ← match s with
    | c :: rest => if c = 'T' ∨ c = 't' ∨ c = ' ' then some rest else none
    | [] => none
  let (hour, s) ← exactly? 2 s
  let s ← char? ':' s
  let (minute, s) ← exactly? 2 s
  let s ← char? ':' s
  let (second, s) ← exactly? 2 s
  let (millis, s) ← fraction? s
  let (offset, s) ← offset? s
  let instant ← ofParts? ⟨year, month, day⟩ ⟨hour, minute, second, millis⟩
  if s.isEmpty then some (instant - offset * 60000) else none

/-- Year, month and day with hyphens between them. -/
def looseDate? (s : List Char) : Option (Date × List Char) := do
  let (year, s) ← year? s
  let s ← char? '-' s
  let (month, s) ← loose? 2 s
  let s ← char? '-' s
  let (day, s) ← loose? 2 s
  return (⟨year, month, day⟩, s)

/-- Hour, minute and second with colons between them, and perhaps a fraction. -/
def looseTime? (s : List Char) : Option (Time × List Char) := do
  let (hour, s) ← loose? 2 s
  let s ← char? ':' s
  let (minute, s) ← loose? 2 s
  let s ← char? ':' s
  let (second, s) ← loose? 2 s
  let (millis, s) ← fraction? s
  return (⟨hour, minute, second, millis⟩, s)

/-- A date and time in universal time, with blanks or a `T` between them. -/
def ofLooseForm? (s : List Char) : Option Instant := do
  let (date, s) ← looseDate? s
  let s := match s with
    | 'T' :: rest => rest
    | rest => rest
  let (time, s) ← looseTime? s
  if s.isEmpty then ofParts? date time else none

/-- The first instant of a date. -/
def ofDateForm? (s : List Char) : Option Instant := do
  let (date, s) ← looseDate? s
  if s.isEmpty then ofParts? date ⟨0, 0, 0, 0⟩ else none

/-- Read a text in the first form that fits. Blanks at its ends do not count. -/
def ofText? (text : String) : Option Instant :=
  let s := Text.trim text.toList
  ofNumeral? s <|> ofOffsetForm? s <|> ofLooseForm? s <|> ofDateForm? s

/-- Read a value: an integer is milliseconds, any other number is cut to them and brought into 64
bits, and a string is read as a text. -/
def ofJson? : Json → Option Instant
  | .number n => match n.toInt? with
    | some i => some i
    | none =>
        let x := n.toFloat
        if x.isFinite then some (Word64.clamp (Binary64.truncate x)) else none
  | .string s => ofText? s
  | _ => none

/-! ## Writing -/

/-- A number with zeros in front up to a width. -/
def padded (width n : Nat) : String :=
  let digits := Nat.toDigits 10 n
  String.ofList (List.replicate (width - digits.length) '0' ++ digits)

/-- Four digits, with a sign if that is not enough or the year is before year zero. -/
def yearText (year : Int) : String :=
  let sign := if year < 0 then "-" else if 9999 < year then "+" else ""
  sign ++ padded 4 year.natAbs

/-- Write an instant, if its year is in the calendar. -/
def toText? (instant : Instant) : Option String :=
  let day := instant / millisPerDay
  let millis := (instant % millisPerDay).toNat
  if Calendar.inRange day then
    let date := Date.ofDay day
    some (yearText date.year ++ "-" ++ padded 2 date.month ++ "-" ++ padded 2 date.day ++ "T"
      ++ padded 2 (millis / 3600000) ++ ":" ++ padded 2 (millis / 60000 % 60) ++ ":"
      ++ padded 2 (millis / 1000 % 60) ++ "." ++ padded 3 (millis % 1000) ++ "Z")
  else none

end Instant

end Rollup.Calendar
