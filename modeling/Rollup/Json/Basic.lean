import Rollup.Binary64.Order
import Rollup.Entries
import Rollup.Word64

/-! # JSON values

A number is an integer of 64 bits, signed or unsigned, or a floating-point number: `1` and `1.0`
are different values that stand for the same amount. Objects keep their members in written order.
-/

namespace Rollup

/-- A JSON number. -/
inductive Number where
  | int (value : Int)
  | float (value : Float)
  deriving DecidableEq, Repr

/-- A JSON value. -/
inductive Json where
  | null
  | bool (value : Bool)
  | number (value : Number)
  | string (value : String)
  | array (items : List Json)
  | object (members : List (String × Json))
  deriving Inhabited, Repr

namespace Number

/-- What reading produces: integers of 64 bits and finite floating-point numbers. -/
def InRange : Number → Prop
  | .int n => Word64.least ≤ n ∧ n < Word64.count
  | .float x => x.isFinite

/-- The floating-point number nearest to the value. -/
def toFloat : Number → Float
  | .int n => Binary64.ofInt n
  | .float x => x

/-- The value as a signed integer of 64 bits, if it is written as one. -/
def toInt? : Number → Option Int
  | .int n => Word64.fits? n
  | .float _ => none

/-- The value as a natural number, if it is written as one. -/
def toNat? : Number → Option Nat
  | .int n => n.toNat?
  | .float _ => none

/-- Integers equal integers and floating-point numbers equal floating-point numbers. -/
def same : Number → Number → Bool
  | .int m, .int n => m = n
  | .float x, .float y => x == y
  | _, _ => false

end Number

namespace Json

def ofNat (n : Nat) : Json := .number (.int n)

def ofInt (n : Int) : Json := .number (.int n)

/-- JSON has no infinities: they and what is not a number become null. -/
def ofFloat (x : Float) : Json := if x.isFinite then .number (.float x) else .null

def ofFloat? (x : Option Float) : Json := x.elim .null ofFloat

def ofString? (s : Option String) : Json := s.elim .null .string

def isNull : Json → Bool
  | .null => true
  | _ => false

def number? : Json → Option Number
  | .number n => some n
  | _ => none

def string? : Json → Option String
  | .string s => some s
  | _ => none

def bool? : Json → Option Bool
  | .bool b => some b
  | _ => none

def array? : Json → Option (List Json)
  | .array items => some items
  | _ => none

def object? : Json → Option (Entries Json)
  | .object members => some members
  | _ => none

def float? (j : Json) : Option Float := j.number?.map Number.toFloat

def nat? (j : Json) : Option Nat := j.number?.bind Number.toNat?

/-- The value of a member; what is no object has none. -/
def member? (j : Json) (name : String) : Option Json := j.object?.bind (·.lookup name)

mutual

/-- Equality of values. The order of an object's members does not count. -/
def same : Json → Json → Bool
  | .null, .null => true
  | .bool a, .bool b => a = b
  | .number m, .number n => m.same n
  | .string s, .string t => s = t
  | .array xs, .array ys => sameList xs ys
  | .object xs, .object ys => xs.length = ys.length && sameMembers xs ys
  | _, _ => false

def sameList : List Json → List Json → Bool
  | [], [] => true
  | x :: xs, y :: ys => same x y && sameList xs ys
  | _, _ => false

/-- Each member of the first object has an equal in the second. -/
def sameMembers : List (String × Json) → List (String × Json) → Bool
  | [], _ => true
  | (name, x) :: xs, ys =>
      (match ys.lookup name with
        | some y => same x y
        | none => false) && sameMembers xs ys

end

end Json

end Rollup
