/-! # Binary floating-point numbers, taken apart

A finite number is `± significand · 2 ^ exponent`. Rounding to an integer works on that form, so
it is exact and has no range of its own.
-/

namespace Rollup.Binary64

/-- The sign, significand and exponent of a finite number. -/
structure Scaled where
  negative : Bool
  significand : Nat
  exponent : Int
  deriving DecidableEq, Repr

/-- The first bit, which is the sign. -/
def signBit : Nat := 0x8000000000000000

/-- The bit of a normal significand that is not stored. -/
def hiddenBit : Nat := 0x10000000000000

/-- All bits but the sign. -/
def magnitude (x : Float) : Nat := x.toBits.toNat % signBit

/-- Whether the sign bit is set, as it is in `-0.0`. -/
def isNegative (x : Float) : Bool := signBit ≤ x.toBits.toNat

/-- Take a finite number apart; below the least normal number the significand has no hidden bit. -/
def scaled (x : Float) : Scaled :=
  let field : Nat := magnitude x / hiddenBit
  let fraction : Nat := magnitude x % hiddenBit
  if field = 0 then ⟨isNegative x, fraction, -1074⟩
  else ⟨isNegative x, hiddenBit + fraction, (field : Int) - 1075⟩

/-- Greatest integer that is not above a finite number. -/
def floor (x : Float) : Int :=
  let s := scaled x
  let signed : Int := if s.negative then -(s.significand : Int) else s.significand
  if 0 ≤ s.exponent then signed * (1 <<< s.exponent.toNat : Nat)
  else signed / (1 <<< (-s.exponent).toNat : Nat)

/-- Least integer that is not below a finite number. -/
def ceil (x : Float) : Int :=
  let s := scaled x
  let opposed : Int := if s.negative then s.significand else -(s.significand : Int)
  if 0 ≤ s.exponent then -(opposed * (1 <<< s.exponent.toNat : Nat))
  else -(opposed / (1 <<< (-s.exponent).toNat : Nat))

/-- A finite number without its fractional part. -/
def truncate (x : Float) : Int := if isNegative x then ceil x else floor x

/-- Whether a finite number has no fractional part. -/
def isIntegral (x : Float) : Bool := floor x = ceil x

/-- Bits of the number nearest to a natural number, ties to the even significand. A significand
that rounds up to the next power of two carries into the exponent. -/
def bitsOfNat (n : Nat) : Nat :=
  if n = 0 then 0
  else
    let top := n.log2
    if top ≤ 52 then (top + 1022) * hiddenBit + n <<< (52 - top)
    else
      let unit := 1 <<< (top - 52)
      let kept := n / unit
      let past := 2 * (n % unit)
      let up := if past < unit then 0 else if unit < past then 1 else kept % 2
      (top + 1022) * hiddenBit + kept + up

/-- Number nearest to an integer. -/
def ofInt (n : Int) : Float :=
  Float.ofBits (UInt64.ofNat (bitsOfNat n.natAbs + if n < 0 then signBit else 0))

def infinity : Float := 1.0 / 0.0

def nan : Float := 0.0 / 0.0

/-- `-0.0` and `0.0` become one number. -/
def unsignedZero (x : Float) : Float := if x == 0.0 then 0.0 else x

/-- The smaller of two numbers. The second wins between equals; what is not a number loses. -/
def min (x y : Float) : Float := if y.isNaN then x else if x < y then x else y

/-- The larger of two numbers. The second wins between equals; what is not a number loses. -/
def max (x y : Float) : Float := if y.isNaN then x else if y < x then x else y

/-- Add from left to right, starting at the neutral element `-0.0`. -/
def sum (xs : List Float) : Float := xs.foldl (· + ·) (-0.0)

def least? : List Float → Option Float
  | [] => none
  | x :: xs => some (xs.foldl min x)

def greatest? : List Float → Option Float
  | [] => none
  | x :: xs => some (xs.foldl max x)

/-- Arithmetic mean; there is none of no numbers. -/
def mean? (xs : List Float) : Option Float :=
  if xs.isEmpty then none else some (sum xs / ofInt xs.length)

end Rollup.Binary64
