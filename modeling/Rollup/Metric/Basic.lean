import Rollup.Bucketing.Grouping
import Rollup.Metric.Percentiles
import Rollup.Result

/-! # Metrics

Nulls do not count. The metrics that compute with numbers take nothing else; the two that count
take any scalar.
-/

namespace Rollup.Metric

/-- The numbers of the field of a node. -/
def numbers (node : Node) (rows : RowSet) : Except Error (List Float) := do
  let field ← node.requireField
  let values ← rows.column node.name field
  let numbers ← values.mapM fun (_, value) =>
    match value with
    | .null => .ok none
    | .number n => .ok (some n.toFloat)
    | _ => .error (node.invalidValue field value)
  return numbers.filterMap id

/-- How many values are not null. -/
def countValues (node : Node) (rows : RowSet) : Except Error Nat := do
  let field ← node.requireField
  let values ← rows.column node.name field
  return (values.filter fun (_, value) => !value.isNull).length

/-- How many distinct values there are, null aside. -/
def countDistinct (node : Node) (rows : RowSet) : Except Error Nat := do
  let field ← node.requireField
  let values ← rows.column node.name field
  let keys ← values.mapM fun (_, value) =>
    match Key.ofJson? value with
    | some key => .ok key
    | none => .error (node.invalidValue field value)
  return (keys.filter fun key => !key.isMissing).eraseDups.length

/-- Check the parameters of a node. -/
def validate (metric : Metric) (node : Node) : Except Error Unit := do
  let _ ← node.requireField
  if metric = percentiles then
    let _ ← Percentiles.percentsOf node

/-- Compute a value of rows. -/
def compute (metric : Metric) (node : Node) (rows : RowSet) : Except Error Value :=
  match metric with
  | avg => return .single (Binary64.mean? (← numbers node rows))
  | sum => return .single (some (Binary64.sum (← numbers node rows)))
  | min => return .single (Binary64.least? (← numbers node rows))
  | max => return .single (Binary64.greatest? (← numbers node rows))
  | valueCount => return .single (some (Binary64.ofInt (← countValues node rows)))
  | cardinality => return .single (some (Binary64.ofInt (← countDistinct node rows)))
  | stats => return .stats (.ofList (← numbers node rows))
  | percentiles => do
      let values ← numbers node rows
      return .percentiles (Percentiles.ofValues values (← Percentiles.percentsOf node))

end Rollup.Metric
