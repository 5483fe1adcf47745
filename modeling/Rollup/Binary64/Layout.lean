import Rollup.Binary64.Shortest

/-! # Decimal text of a number

A layout says which numbers are written positionally and whether a whole number keeps a `.0`. All
layouts write the same shortest digits.
-/

namespace Rollup.Binary64

/-- How a finite number is written. -/
structure Layout where
  /-- Least and greatest point written positionally, all points if absent. -/
  positional : Option (Int × Int)
  /-- Whether a whole number in positional form ends in `.0`. -/
  keepsFraction : Bool
  deriving DecidableEq, Repr

/-- The digits of a finite number; zero has the single digit `0`. -/
def digitsOf (x : Float) : Digits := if x == 0.0 then ⟨['0'], 1⟩ else shortest x

/-- Digits with the point in its place. -/
def positionalText (keepsFraction : Bool) (d : Digits) : List Char :=
  if d.point ≤ 0 then
    '0' :: '.' :: (List.replicate (-d.point).toNat '0' ++ d.digits)
  else if (d.digits.length : Int) ≤ d.point then
    d.digits ++ List.replicate (d.point.toNat - d.digits.length) '0' ++
      (if keepsFraction then ['.', '0'] else [])
  else
    d.digits.take d.point.toNat ++ '.' :: d.digits.drop d.point.toNat

/-- One digit, the others as a fraction, and a signed power of ten. -/
def scientificText (d : Digits) : List Char :=
  let fraction := d.digits.drop 1
  let exponent := d.point - 1
  d.digits.take 1 ++ (if fraction.isEmpty then [] else '.' :: fraction) ++
    'e' :: (if exponent < 0 then '-' else '+') :: Nat.toDigits 10 exponent.natAbs

/-- Write a finite number. -/
def Layout.write (layout : Layout) (x : Float) : String :=
  let d := digitsOf x
  let isPositional := match layout.positional with
    | none => true
    | some (low, high) => low ≤ d.point ∧ d.point ≤ high
  let body := if isPositional then positionalText layout.keepsFraction d else scientificText d
  String.ofList (if isNegative x then '-' :: body else body)

end Rollup.Binary64
