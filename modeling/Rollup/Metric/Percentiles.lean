import Rollup.Aggregation.Node
import Rollup.Binary64.Order

/-! # Percentiles

A percentile is found between the two values next to its rank, in proportion to the distance from
them.
-/

namespace Rollup.Percentiles

def defaultPercents : List Float := [1.0, 5.0, 25.0, 50.0, 75.0, 95.0, 99.0]

/-- The percents that a node asks for, each from 0 to 100. -/
def percentsOf (node : Node) : Except Error (List Float) :=
  match node.param? "percents" with
  | none => .ok defaultPercents
  | some (.array (item :: items)) => (item :: items).mapM fun item =>
      match item.float? with
      | some p => if 0.0 ≤ p ∧ p ≤ 100.0 then .ok p else .error (node.badParam "percents" .badPercent)
      | none => .error (node.badParam "percents" .badPercent)
  | some _ => .error (node.badParam "percents" .percentsNotList)

/-- The percentile of values in ascending order. -/
def interpolate (sorted : Array Float) (percent : Float) : Float :=
  let rank := percent / 100.0 * Binary64.ofInt ((sorted.size - 1 : Nat) : Int)
  let lower := sorted.getD (Binary64.floor rank).toNat 0.0
  let upper := sorted.getD (Binary64.ceil rank).toNat 0.0
  let fraction := rank - Binary64.ofInt (Binary64.floor rank)
  lower + (upper - lower) * fraction

/-- Each percent with its percentile; no values have none. -/
def ofValues (values percents : List Float) : List (Float × Option Float) :=
  let sorted := (values.mergeSort fun x y => (Binary64.compareTotal x y).isLE).toArray
  percents.map fun p => (p, if sorted.isEmpty then none else some (interpolate sorted p))

end Rollup.Percentiles
