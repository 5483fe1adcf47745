import Rollup.Binary64.Basic

/-! # Shortest decimal digits

The digits of a number are the fewest that read back as the same number, and of those the nearest
to it. Each grid of decimal numbers with one more digit is tried in turn: if any of its points lies
among the reals that round to the number, so does one of the number's two neighbours on the grid.
-/

namespace Rollup.Binary64

/-- Digits after a decimal point that stands `point` places to the right of its usual place:
`0.d₁d₂… · 10 ^ point`. -/
structure Digits where
  digits : List Char
  point : Int
  deriving DecidableEq, Repr

/-- How many decimal digits a natural number has; zero has none. -/
def digitCount (n : Nat) : Nat := if n = 0 then 0 else (Nat.toDigits 10 n).length

/-- A positive number and the open ends of the reals that round to it, over one denominator. The
ends themselves belong when `closed`. -/
structure Neighbourhood where
  low : Nat
  value : Nat
  high : Nat
  denominator : Nat
  closed : Bool
  deriving DecidableEq, Repr

namespace Neighbourhood

/-- The reals that round to a positive finite number. At a power of two the gap below is half as
wide as the gap above. -/
def of (x : Float) : Neighbourhood :=
  let s := scaled x
  let below := if s.significand = hiddenBit ∧ s.exponent ≠ -1074 then 1 else 2
  let shift := s.exponent - 2
  let scale := 1 <<< shift.toNat
  { low := (4 * s.significand - below) * scale
    value := 4 * s.significand * scale
    high := (4 * s.significand + 2) * scale
    denominator := 1 <<< (-shift).toNat
    closed := s.significand % 2 = 0 }

/-- The `point` at which the value's first digit stands right behind the decimal point. -/
def point (n : Neighbourhood) : Int :=
  if n.denominator ≤ n.value then digitCount (n.value / n.denominator)
  else 1 - (digitCount ((n.denominator - 1) / n.value) : Int)

/-- Measure in units of `10 ^ exponent`. -/
def inUnits (n : Neighbourhood) (exponent : Int) : Neighbourhood :=
  let up := Nat.pow 10 (-exponent).toNat
  { n with
    low := n.low * up
    value := n.value * up
    high := n.high * up
    denominator := n.denominator * Nat.pow 10 exponent.toNat }

/-- Whether the integer `k` lies among the reals that round to the number. -/
def holds (n : Neighbourhood) (k : Nat) : Bool :=
  let p := k * n.denominator
  (n.low < p && p < n.high) || (n.closed && (p = n.low || p = n.high))

/-- The integer nearest to the value, of its two neighbours, that rounds to the number. Of two
equally near ones the even one is taken. -/
def integer? (n : Neighbourhood) : Option Nat :=
  let k := n.value / n.denominator
  let past := 2 * (n.value - k * n.denominator)
  let nearer :=
    if past < n.denominator then k
    else if n.denominator < past then k + 1
    else if k % 2 = 0 then k else k + 1
  match n.holds k, n.holds (k + 1) with
  | true, true => some nearer
  | true, false => some k
  | false, true => some (k + 1)
  | false, false => none

end Neighbourhood

/-- The fewest digits that read back as a finite number other than zero, its sign aside. Seventeen
always suffice. -/
def shortest (x : Float) : Digits :=
  let n := Neighbourhood.of x
  let found (count : Nat) : Option (Nat × Int) :=
    let exponent := n.point - (count : Int)
    (n.inUnits exponent).integer?.map (·, exponent)
  let (digits, exponent) := ((List.range' 1 17).findSome? found).getD (0, 0)
  { digits := ((Nat.toDigits 10 digits).reverse.dropWhile (· = '0')).reverse
    point := exponent + digitCount digits }

end Rollup.Binary64
