import Rollup.Calendar.Instant

/-! # Bucket keys

A key tells the buckets of one aggregation apart. Missing values have a key of their own, which no
present value shares. Keys are ordered: booleans, numbers, dates, strings, and the missing key last.
Numbers compare as floating-point numbers; an integer stands before an equal one that is written
as a floating-point number, and integers that round to the same number keep their own order.
-/

namespace Rollup

/-- What the rows of a bucket have in common. -/
inductive Key where
  | missing
  | bool (value : Bool)
  | int (value : Int)
  | float (value : Float)
  | str (value : String)
  /-- The start of an interval of time. -/
  | date (start : Calendar.Instant)
  deriving DecidableEq, Repr, Inhabited

namespace Key

/-- Key of a floating-point number: both zeros share one. -/
def ofFloat (x : Float) : Key := .float (Binary64.unsignedZero x)

/-- Key of a value. Lists and objects have none. An integer beyond 63 bits is taken as a
floating-point number. -/
def ofJson? : Json → Option Key
  | .null => some .missing
  | .bool b => some (.bool b)
  | .number n => match n.toInt? with
    | some i => some (.int i)
    | none => some (ofFloat n.toFloat)
  | .string s => some (.str s)
  | .array _ => none
  | .object _ => none

def isMissing (key : Key) : Bool := key = .missing

/-- The number that a numeric key or a date stands for. -/
def toFloat? : Key → Option Float
  | .int i => some (Binary64.ofInt i)
  | .date i => some (Binary64.ofInt i)
  | .float x => some x
  | _ => none

/-- How a key appears in an answer. -/
def toJson : Key → Json
  | .missing => .null
  | .bool b => .bool b
  | .int i => .ofInt i
  | .date i => .ofInt i
  | .float x => .ofFloat x
  | .str s => .string s

/-- Written form of a date, if its year is in the calendar. -/
def dateText? : Key → Option String
  | .date i => Calendar.Instant.toText? i
  | _ => none

/-- Place of a kind of key in the order of keys. -/
def kindRank : Key → Nat
  | .bool _ => 0
  | .int _ => 1
  | .float _ => 1
  | .date _ => 2
  | .str _ => 3
  | .missing => 4

/-- Compare two keys. -/
def compare (a b : Key) : Ordering :=
  (Ord.compare a.kindRank b.kindRank).then <|
    match a, b with
    | .bool x, .bool y => Ord.compare x y
    | .int x, .int y => Ord.compare x y
    | .date x, .date y => Ord.compare x y
    | .str x, .str y => Ord.compare x y
    | .float x, .float y => Binary64.compareTotal x y
    | .int x, .float y => (Binary64.compareTotal (Binary64.ofInt x) y).then .lt
    | .float x, .int y => (Binary64.compareTotal x (Binary64.ofInt y)).then .gt
    | _, _ => .eq

/-- Whether a key does not come after another. -/
def le (a b : Key) : Bool := (compare a b).isLE

end Key

end Rollup
