import Rollup.Bucketing.DateHistogram
import Rollup.Bucketing.Histogram
import Rollup.Bucketing.Terms

/-! # Bucketing methods -/

namespace Rollup.Bucketing

/-- Check the parameters of a node. -/
def validate : Bucketing → Node → Except Error Unit
  | terms => Terms.validate
  | histogram => Histogram.validate
  | dateHistogram => DateHistogram.validate

/-- Put rows into groups. -/
def group (method : Bucketing) (node : Node) (rows : RowSet) (limits : Limits) :
    Except Error (Grouping (Fin rows.rows.size)) :=
  match method with
  | terms => Terms.group node rows
  | histogram => Histogram.group node rows limits
  | dateHistogram => DateHistogram.group node rows limits

/-- The order of buckets unless a node asks for another one. -/
def defaultOrder : Bucketing → BucketOrder
  | terms => .countDescending
  | _ => .keyAscending

/-- How many buckets are kept unless a node says so itself. -/
def defaultSize (limits : Limits) : Bucketing → Option Nat
  | terms => some limits.termsSize
  | _ => none

end Rollup.Bucketing
