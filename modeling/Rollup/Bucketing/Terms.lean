import Rollup.Bucketing.Grouping

/-! # Buckets of equal values -/

namespace Rollup.Terms

/-- A terms aggregation needs a field. -/
def validate (node : Node) : Except Error Unit := do
  let _ ← node.requireField
  node.checkSize

/-- One group for each distinct value of the field. -/
def group (node : Node) (rows : RowSet) : Except Error (Grouping (Fin rows.rows.size)) := do
  let field ← node.requireField
  let values ← rows.column node.name field
  let pairs ← values.mapM fun (id, value) =>
    match Key.ofJson? value with
    | some key => .ok (key, id)
    | none => .error (node.invalidValue field value)
  return .atLeast 0 (.ofPairs pairs)

end Rollup.Terms
