import Rollup.Binary64.Shortest

/-! # Reading decimal text as a number

The grammar: an optional sign, then digits with an optional point among them or at an end and an
optional exponent, or one of the words `inf`, `infinity` and `nan` in any case. No blanks. The value
is the nearest number, so a text that is too large reads as an infinity.
-/

namespace Rollup.Binary64

def isDigit (c : Char) : Bool := '0' ≤ c && c ≤ '9'

/-- Value of a list of digits. -/
def natOfDigits (digits : List Char) : Nat :=
  digits.foldl (fun n c => 10 * n + (c.toNat - '0'.toNat)) 0

/-- The nearest number to `digits · 10 ^ exponent`. Beyond 330 places of magnitude every value is
an infinity or zero. -/
def ofDecimal (digits : Nat) (exponent : Int) : Float :=
  let point := exponent + digitCount digits
  if digits = 0 ∨ point < -330 then 0.0
  else if 330 < point then infinity
  else Float.ofScientific digits (exponent < 0) exponent.natAbs

/-- An exponent, its letter included. Nothing at all is the exponent zero. -/
def exponentOf? : List Char → Option Int
  | [] => some 0
  | letter :: rest =>
      if letter ≠ 'e' ∧ letter ≠ 'E' then none
      else
        let (negative, digits) := match rest with
          | '-' :: ds => (true, ds)
          | '+' :: ds => (false, ds)
          | ds => (false, ds)
        if digits.isEmpty ∨ ¬ digits.all isDigit then none
        else
          let n : Int := natOfDigits digits
          some (if negative then -n else n)

/-- Digits with an optional point and an optional exponent. -/
def decimalOf? (text : List Char) : Option Float :=
  let whole := text.takeWhile isDigit
  let afterWhole := text.dropWhile isDigit
  let (fraction, rest) := match afterWhole with
    | '.' :: tail => (tail.takeWhile isDigit, tail.dropWhile isDigit)
    | tail => ([], tail)
  let digits := whole ++ fraction
  if digits.isEmpty then none
  else (exponentOf? rest).map fun e => ofDecimal (natOfDigits digits) (e - (fraction.length : Int))

/-- A number without its sign. -/
def unsignedOf? (text : List Char) : Option Float :=
  let word := String.ofList (text.map Char.toLower)
  if word = "inf" ∨ word = "infinity" then some infinity
  else if word = "nan" then some nan
  else decimalOf? text

/-- Read a text as a number. -/
def ofString? (text : String) : Option Float :=
  match text.toList with
  | '-' :: rest => (unsignedOf? rest).map (- ·)
  | '+' :: rest => unsignedOf? rest
  | rest => unsignedOf? rest

end Rollup.Binary64
