import Rollup.Bucketing.Grouping

/-! # Buckets of fixed width

Values are divided by the width of a bucket; the whole part of the quotient is the index of the
bucket, and an index has one key. Without a least count of rows every index between the least and
the greatest one has a group.
-/

namespace Rollup.Histogram

structure Params where
  interval : Float
  offset : Float
  minCount : Nat
  bounds : Option (Float × Float)

namespace Params

def ofNode (node : Node) : Except Error Params := do
  let some interval ← node.floatParam "interval" | throw (node.badParam "interval" .required)
  if !(interval.isFinite && 0.0 < interval) then throw (node.badParam "interval" .notPositive)
  let offset := (← node.floatParam "offset").getD 0.0
  let minCount ← node.minCount
  let bounds ← node.extendedBounds Json.float? (fun low high => high < low)
  return { interval, offset, minCount, bounds }

/-- Index of the bucket that holds a value, if it fits in 64 bits. -/
def index? (params : Params) (value : Float) : Option Int :=
  let quotient := (value - params.offset) / params.interval
  if quotient.isFinite then Word64.fits? (Binary64.floor quotient) else none

/-- Key of the bucket at an index. -/
def keyAt (params : Params) (index : Int) : Key :=
  .ofFloat (Binary64.ofInt index * params.interval + params.offset)

end Params

def validate (node : Node) : Except Error Unit := do
  let _ ← node.requireField
  node.checkSize
  let _ ← Params.ofNode node

/-- The indices from the first to the last, unless they are more than the limit or more than 63
bits can count. -/
def indices (limits : Limits) (first last : Int) : Except Error (List Int) :=
  let count := (last - first + 1).toNat
  if count ≤ limits.buckets ∧ count ≤ Word64.greatest then
    .ok ((List.range count).map fun (i : Nat) => first + (i : Int))
  else .error (.tooManyBuckets limits.buckets)

/-- Index of a value of the field; a null has none. -/
def indexOf (node : Node) (params : Params) (field : String) (value : Json) :
    Except Error (Option Int) :=
  match value with
  | .null => .ok none
  | .number n => match params.index? n.toFloat with
      | some index => .ok (some index)
      | none => .error (node.invalidValue field value)
  | _ => .error (node.invalidValue field value)

/-- One group for each bucket that holds a value, one for the nulls, and the groups that fill the
gaps. -/
def group (node : Node) (rows : RowSet) (limits : Limits) :
    Except Error (Grouping (Fin rows.rows.size)) := do
  let field ← node.requireField
  let params ← Params.ofNode node
  let values ← rows.column node.name field
  let indexed ← values.mapM fun (id, value) => do
    return (← indexOf node params field value, id)
  let keyOf : Option Int → Key := fun index => index.elim .missing params.keyAt
  let groups := Groups.ofPairs (indexed.map fun (index, id) => (keyOf index, id))
  if params.minCount ≠ 0 then return .atLeast params.minCount groups
  let span := spanOf (indexed.filterMap (·.1))
  let span ← match params.bounds with
    | none => pure span
    | some (low, high) => do
        let outOfRange := node.badParam "extended_bounds" .outOfRange
        let some low := params.index? low | throw outOfRange
        let some high := params.index? high | throw outOfRange
        pure (some (widen span low high))
  match span with
  | none => return .atLeast 0 groups
  | some (first, last) => do
      let filled ← indices limits first last
      return .atLeast 0 (groups.fill (filled.map params.keyAt))

end Rollup.Histogram
