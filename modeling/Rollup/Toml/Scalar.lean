import Rollup.Binary64.Reader
import Rollup.Toml.Basic
import Rollup.Word64

/-! # TOML words

Whatever is no string and no container is one word: a truth value, a number or a moment in time. Digits
of a number may be grouped by underscores between them.
-/

namespace Rollup.Toml

open Binary64 (isDigit natOfDigits)

/-! ## Numbers -/

/-- Digits, each underscore between two of them. -/
def areDigits (isDigit : Char → Bool) : List Char → Bool
  | [] => false
  | [c] => isDigit c
  | c :: '_' :: rest => isDigit c && areDigits isDigit rest
  | c :: rest => isDigit c && areDigits isDigit rest

def ungrouped (digits : List Char) : List Char := digits.filter (· ≠ '_')

/-- The sign of a number, and what follows it. -/
def splitSign : List Char → Bool × List Char
  | '-' :: rest => (true, rest)
  | '+' :: rest => (false, rest)
  | rest => (false, rest)

/-- Digits of which the first is no zero unless it stands alone. -/
def isWhole (digits : List Char) : Bool :=
  areDigits isDigit digits && (digits.head? ≠ some '0' || digits.length = 1)

/-- The value of a digit in any base up to sixteen. -/
def digitValue (c : Char) : Nat :=
  if isDigit c then c.toNat - '0'.toNat else c.toLower.toNat - 'a'.toNat + 10

def isDigitOf (base : Nat) (c : Char) : Bool :=
  (isDigit c || ('a' ≤ c.toLower && c.toLower ≤ 'f')) && digitValue c < base

/-- An integer in a base that is marked. It has no sign. -/
def basedOf? (base : Nat) (digits : List Char) : Option Int :=
  if areDigits (isDigitOf base) digits then
    some ((ungrouped digits).foldl (fun n c => base * n + digitValue c) 0 : Nat)
  else none

/-- The integer that a word spells, of any size. -/
def unboundedOf? : List Char → Option Int
  | '0' :: 'x' :: digits => basedOf? 16 digits
  | '0' :: 'o' :: digits => basedOf? 8 digits
  | '0' :: 'b' :: digits => basedOf? 2 digits
  | word =>
      let (negative, digits) := splitSign word
      if isWhole digits then
        let n : Int := natOfDigits (ungrouped digits)
        some (if negative then -n else n)
      else none

/-- Integers have 64 bits. -/
def integerOf? (word : List Char) : Option Int := (unboundedOf? word).bind Word64.fits?

/-- Whether a word is an exponent, its letter included. -/
def isExponent : List Char → Bool
  | letter :: rest => (letter = 'e' || letter = 'E') && areDigits isDigit (splitSign rest).2
  | [] => false

/-- Whether a word without sign is a number with a fraction or an exponent. -/
def isFractional (word : List Char) : Bool :=
  let inNumber (c : Char) : Bool := isDigit c || c = '_'
  let whole := word.takeWhile inNumber
  isWhole whole && match word.dropWhile inNumber with
    | '.' :: rest =>
        areDigits isDigit (rest.takeWhile inNumber)
          && (rest.dropWhile inNumber = [] || isExponent (rest.dropWhile inNumber))
    | rest => isExponent rest

/-- The floating-point number that a word spells. There is no way to write a number above all others
but by its name. -/
def floatOf? (word : List Char) : Option Float :=
  let (_, unsigned) := splitSign word
  let read := Binary64.ofString? (String.ofList (ungrouped word))
  if unsigned = "inf".toList ∨ unsigned = "nan".toList then read
  else if isFractional unsigned then read.filter fun x => !(x == Binary64.infinity)
  else none

/-! ## Moments -/

/-- The number of two digits, if it is in a range. -/
def twoDigits? (a b : Char) (low high : Nat) : Option Nat :=
  let n := natOfDigits [a, b]
  if isDigit a ∧ isDigit b ∧ low ≤ n ∧ n ≤ high then some n else none

def daysOfMonth (year month : Nat) : Nat :=
  if month = 2 then if year % 4 = 0 ∧ (year % 100 ≠ 0 ∨ year % 400 = 0) then 29 else 28
  else if month = 4 ∨ month = 6 ∨ month = 9 ∨ month = 11 then 30
  else 31

/-- What follows a date. -/
def afterDate? : List Char → Option (List Char)
  | y₁ :: y₂ :: y₃ :: y₄ :: '-' :: m₁ :: m₂ :: '-' :: d₁ :: d₂ :: rest => do
      let year := [y₁, y₂, y₃, y₄]
      if !year.all isDigit then none
      let month ← twoDigits? m₁ m₂ 1 12
      let _ ← twoDigits? d₁ d₂ 1 (daysOfMonth (natOfDigits year) month)
      return rest
  | _ => none

/-- What follows a time of day. A minute may have a second more than others. -/
def afterTime? : List Char → Option (List Char)
  | h₁ :: h₂ :: ':' :: m₁ :: m₂ :: ':' :: s₁ :: s₂ :: rest => do
      let _ ← twoDigits? h₁ h₂ 0 23
      let _ ← twoDigits? m₁ m₂ 0 59
      let _ ← twoDigits? s₁ s₂ 0 60
      match rest with
      | '.' :: fraction =>
          if (fraction.takeWhile isDigit).isEmpty then none else return fraction.dropWhile isDigit
      | rest => return rest
  | _ => none

/-- Whether a word is a distance from universal time. -/
def isOffset : List Char → Bool
  | [c] => c = 'Z' || c = 'z'
  | [sign, h₁, h₂, ':', m₁, m₂] =>
      (sign = '+' || sign = '-') && (twoDigits? h₁ h₂ 0 23).isSome && (twoDigits? m₁ m₂ 0 59).isSome
  | _ => false

/-- Whether a word is a date, a time of day, or both with or without a distance. -/
def isMoment (word : List Char) : Bool :=
  match afterDate? word with
  | some [] => true
  | some (mark :: time) =>
      (mark = 'T' || mark = 't' || mark = ' ') && (match afterTime? time with
        | some rest => rest = [] || isOffset rest
        | none => false)
  | none => afterTime? word = some []

/-- The value of a word. -/
def Value.ofWord? (word : List Char) : Option Value :=
  if word = "true".toList then some (.bool true)
  else if word = "false".toList then some (.bool false)
  else if isMoment word then some (.moment (String.ofList word))
  else match integerOf? word with
    | some n => some (.integer n)
    | none => (floatOf? word).map .float

end Rollup.Toml
