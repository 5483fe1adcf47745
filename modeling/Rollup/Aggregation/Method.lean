import Rollup.Error
import Rollup.Entries

/-! # Aggregation methods

The catalogue lists every method under the name by which requests ask for it, in ascending order of
name.
-/

namespace Rollup

/-- How rows are put into buckets. -/
inductive Bucketing where
  | terms
  | histogram
  | dateHistogram
  deriving DecidableEq, Repr

/-- How a value is computed from rows. -/
inductive Metric where
  | avg
  | sum
  | min
  | max
  | valueCount
  | cardinality
  | stats
  | percentiles
  deriving DecidableEq, Repr

/-- How a sequence of values becomes one. -/
inductive Reducer where
  | avg
  | sum
  | min
  | max
  | stats
  deriving DecidableEq, Repr

/-- How the result of a sibling is turned into another result. -/
inductive Pipeline where
  | derivative
  | cumulativeSum
  | movingAvg
  | reduce (reducer : Reducer)
  deriving DecidableEq, Repr

/-- What an aggregation computes. -/
inductive Method where
  | bucketing (method : Bucketing)
  | metric (method : Metric)
  | pipeline (method : Pipeline)
  deriving DecidableEq, Repr

/-- What can be read from a value: one number, a record of five, or numbers by percent. -/
inductive Shape where
  | single
  | stats
  | percentiles
  deriving DecidableEq, Repr

def Metric.shape : Metric → Shape
  | .stats => .stats
  | .percentiles => .percentiles
  | _ => .single

def Pipeline.shape : Pipeline → Shape
  | .reduce .stats => .stats
  | _ => .single

/-- Whether the output has one value for each value of a sequence. -/
def Pipeline.isParallel : Pipeline → Bool
  | .reduce _ => false
  | _ => true

/-- Differences and windows have no meaning over a single value. -/
def Pipeline.requiresSequence : Pipeline → Bool
  | .derivative => true
  | .movingAvg => true
  | _ => false

namespace Method

def kind : Method → Kind
  | .bucketing _ => .bucketing
  | .metric _ => .metric
  | .pipeline _ => .pipeline

/-- The shape of a value; buckets have none. -/
def shape? : Method → Option Shape
  | .bucketing _ => none
  | .metric m => some m.shape
  | .pipeline p => some p.shape

/-- How many results of siblings a method reads. -/
def dependencies : Method → Nat
  | .pipeline _ => 1
  | _ => 0

/-- Every method by name. -/
def catalogue : Entries Method :=
  [("avg", .metric .avg),
   ("avg_bucket", .pipeline (.reduce .avg)),
   ("cardinality", .metric .cardinality),
   ("cumulative_sum", .pipeline .cumulativeSum),
   ("date_histogram", .bucketing .dateHistogram),
   ("derivative", .pipeline .derivative),
   ("histogram", .bucketing .histogram),
   ("max", .metric .max),
   ("max_bucket", .pipeline (.reduce .max)),
   ("min", .metric .min),
   ("min_bucket", .pipeline (.reduce .min)),
   ("moving_avg", .pipeline .movingAvg),
   ("percentiles", .metric .percentiles),
   ("stats", .metric .stats),
   ("stats_bucket", .pipeline (.reduce .stats)),
   ("sum", .metric .sum),
   ("sum_bucket", .pipeline (.reduce .sum)),
   ("terms", .bucketing .terms),
   ("value_count", .metric .valueCount)]

/-- Names of all methods, in ascending order. -/
def names : List String := catalogue.map (·.1)

/-- The method of a name. -/
def ofName? (name : String) : Option Method := catalogue.lookup name

/-- The method of a name asked for on a field, if any; an unknown name is an error. -/
def find (name : String) (field : Option String) : Except Error Method :=
  match ofName? name, field with
  | some method, _ => .ok method
  | none, some field => .error (.unsupportedTypeForField name field names)
  | none, none => .error (.unsupportedType name names)

end Method

end Rollup
