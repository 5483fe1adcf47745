import Rollup.Aggregation.Path
import Rollup.Memory
import Rollup.Result

/-! # Pipelines

A pipeline reads a sequence of values, one for each bucket of its sibling, or a single value. A
value that is absent, or is not a number, is a gap; the gap policy says whether it is left out or
counts as zero. A moving average sets memory aside for its whole window before it looks at a value.
-/

namespace Rollup

/-- What a pipeline reads from its sibling. -/
inductive SiblingValues where
  | sequence (values : List (Key × Option Float))
  | scalar (value : Option Float)
  deriving DecidableEq, Repr

inductive GapPolicy where
  | skip
  | insertZeros
  deriving DecidableEq, Repr

namespace GapPolicy

def ofNode (node : Node) : Except Error GapPolicy := do
  match ← node.stringParam "gap_policy" with
  | none => return skip
  | some "skip" => return skip
  | some "insert_zeros" => return insertZeros
  | some other => throw (node.badParam "gap_policy" (.unknownPolicy other))

def apply (policy : GapPolicy) (value : Option Float) : Option Float :=
  let value := value.filter fun x => !x.isNaN
  match policy with
  | skip => value
  | insertZeros => some (value.getD 0.0)

end GapPolicy

namespace Reducer

/-- Reduce the values of a sequence, gaps left out. -/
def apply (reducer : Reducer) (values : List Float) : Value :=
  match reducer with
  | avg => .single (Binary64.mean? values)
  | sum => .single (some (Binary64.sum values))
  | min => .single (Binary64.least? values)
  | max => .single (Binary64.greatest? values)
  | stats => .stats (.ofList values)

/-- A single value reduces to itself. -/
def applyScalar (reducer : Reducer) (value : Option Float) : Value :=
  match reducer with
  | stats => .stats (.ofList value.toList)
  | _ => .single value

end Reducer

namespace Pipeline

/-- How many earlier values a moving average takes in. -/
def windowOf (node : Node) : Except Error Nat := do
  return (← node.positiveParam "window").getD 5

/-- The difference to the last value before it, where there is one. -/
def differences (previous : Option Float) : List (Option Float) → List (Option Float)
  | [] => []
  | none :: rest => none :: differences previous rest
  | some x :: rest => (previous.map (x - ·)) :: differences (some x) rest

/-- The sum of all values so far. A gap adds nothing. -/
def runningSums (total : Float) : List (Option Float) → List (Option Float)
  | [] => []
  | x :: rest =>
      let total := total + x.getD 0.0
      some total :: runningSums total rest

/-- The mean of the last values before each one, at most as many as the window holds. -/
def movingMeans (window : Nat) (recent : List Float) : List (Option Float) → List (Option Float)
  | [] => []
  | x :: rest =>
      let next := match x with
        | none => recent
        | some x => (if recent.length = window then recent.drop 1 else recent) ++ [x]
      Binary64.mean? recent :: movingMeans window next rest

/-- Turn a sequence into another one with the same keys. -/
def overSequence (node : Node) (input : SiblingValues)
    (f : List (Option Float) → List (Option Float)) : Except Error Result :=
  match input with
  | .scalar _ => .error (.invalidAggregation node.name (.sequenceRequired node.typeName))
  | .sequence values => do
      let policy ← GapPolicy.ofNode node
      return .series ((values.map (·.1)).zip (f (values.map fun (_, x) => policy.apply x)))

/-- Check the parameters of a node. -/
def validate (pipeline : Pipeline) (node : Node) : Except Error Unit := do
  if let some field := node.field then
    throw (.invalidAggregation node.name (.fieldNotAllowed node.typeName field))
  let _ ← BucketsPath.ofNode node
  let _ ← GapPolicy.ofNode node
  if pipeline = movingAvg then
    let _ ← windowOf node

/-- Compute a result of what is read from the sibling. -/
def compute [Memory] (pipeline : Pipeline) (node : Node) (input : SiblingValues) :
    Except Error Result :=
  match pipeline with
  | derivative => overSequence node input (differences none)
  | cumulativeSum => match input with
      | .scalar value => return .value (.single value)
      | input => overSequence node input (runningSums 0.0)
  | movingAvg => do
      let window ← windowOf node
      Memory.setAside window
      overSequence node input (movingMeans window [])
  | .reduce reducer => match input with
      | .scalar value => return .value (reducer.applyScalar value)
      | .sequence values => do
          let policy ← GapPolicy.ofNode node
          return .value (reducer.apply (values.filterMap fun (_, x) => policy.apply x))

section MovingAvg

variable [Memory] {node : Node} {window : Nat} (asked : windowOf node = .ok window)
  (input : SiblingValues)

include asked

theorem compute_movingAvg_of_le (fits : window ≤ Memory.room) :
    movingAvg.compute node input = overSequence node input (movingMeans window []) := by
  rw [compute, asked]
  show (Memory.setAside window >>= _) = _
  rw [Memory.setAside_of_le fits]
  rfl

/-- A moving average breaks down over a window for which there is too little memory. -/
theorem compute_movingAvg_of_lt (beyond : Memory.room < window) :
    movingAvg.compute node input = .error .breakdown := by
  rw [compute, asked]
  show (Memory.setAside window >>= _) = _
  rw [Memory.setAside_eq_error_iff.mpr ⟨beyond, rfl⟩]
  rfl

end MovingAvg

end Pipeline

end Rollup
