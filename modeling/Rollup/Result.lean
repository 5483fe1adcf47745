import Rollup.Binary64.Reader
import Rollup.Key

/-! # Results

A result is a list of buckets, a value, or a series of values, one for each bucket of another
result. Results have names and stand in the order in which a request declares them.
-/

namespace Rollup

/-- Five numbers about a list of numbers. -/
structure Stats where
  count : Nat
  min : Option Float
  max : Option Float
  sum : Option Float
  avg : Option Float
  deriving DecidableEq, Repr

namespace Stats

/-- Of no numbers the sum is zero, and the others do not exist. -/
def ofList (values : List Float) : Stats :=
  { count := values.length
    min := Binary64.least? values
    max := Binary64.greatest? values
    sum := some (if values.isEmpty then 0.0 else Binary64.sum values)
    avg := Binary64.mean? values }

def propertyNames : List String := ["count", "min", "max", "sum", "avg"]

def property? (stats : Stats) (name : String) : Option Float :=
  match name with
  | "count" => some (Binary64.ofInt stats.count)
  | "min" => stats.min
  | "max" => stats.max
  | "sum" => stats.sum
  | "avg" => stats.avg
  | _ => none

end Stats

/-- What a metric computes. -/
inductive Value where
  | single (value : Option Float)
  | stats (stats : Stats)
  /-- Values by percent, in the order asked for. -/
  | percentiles (values : List (Float × Option Float))
  deriving DecidableEq, Repr

namespace Value

/-- Read one number. A single value has the property `value`, which need not be named; the numbers
of a record are read by name and percentiles by percent. -/
def property? (value : Value) (property : Option String) : Option Float :=
  match value, property with
  | .single x, none => x
  | .single x, some name => if name = "value" then x else none
  | .stats s, some name => s.property? name
  | .percentiles values, some text => do
      let percent ← Binary64.ofString? text
      let (_, x) ← values.find? fun (p, _) => p == percent
      x
  | _, none => none

end Value

mutual

/-- What one aggregation computes. -/
inductive Result where
  /-- Buckets in order, and how many rows were in those left out, if any were. -/
  | buckets (buckets : List Bucket) (otherCount : Option Nat)
  | value (value : Value)
  /-- One value for each bucket of the sibling. -/
  | series (values : List (Key × Option Float))

/-- Rows with one key: how many there are, and what the aggregations below compute of them. -/
structure Bucket where
  key : Key
  count : Nat
  results : List (String × Result)

end

instance : Inhabited Result := ⟨.series []⟩

/-- The answer to a request: how many rows it saw, and its results. -/
structure Summary where
  count : Nat
  results : Entries Result

namespace Result

def buckets? : Result → Option (List Bucket)
  | .buckets bs _ => some bs
  | _ => none

def value? : Result → Option Value
  | .value v => some v
  | _ => none

end Result

end Rollup
