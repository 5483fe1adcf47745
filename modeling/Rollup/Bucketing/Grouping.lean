import Rollup.Aggregation.Order
import Rollup.Json.Printer
import Rollup.Key
import Rollup.Limits
import Rollup.Row

/-! # Groups of rows

Groups are kept in ascending order of key, and no two of them share a key. Within a group the rows
keep their order.
-/

namespace Rollup

/-- Rows by key, in ascending order of key. -/
abbrev Groups (ι : Type) := List (Key × List ι)

namespace Groups

variable {ι : Type}

/-- Put rows in front of those that a key has already. -/
def put (key : Key) (ids : List ι) : Groups ι → Groups ι
  | [] => [(key, ids)]
  | group :: rest =>
      match key.compare group.1 with
      | .lt => (key, ids) :: group :: rest
      | .eq => (group.1, ids ++ group.2) :: rest
      | .gt => group :: put key ids rest

/-- Group rows by their keys. -/
def ofPairs (pairs : List (Key × ι)) : Groups ι :=
  pairs.foldr (fun pair groups => groups.put pair.1 [pair.2]) []

/-- Add an empty group for each key that has none. -/
def fill (keys : List Key) (groups : Groups ι) : Groups ι :=
  keys.foldr (fun key groups => groups.put key []) groups

end Groups

/-- The groups that an aggregation keeps, and how many rows were in the others. -/
structure Grouping (ι : Type) where
  groups : Groups ι
  folded : Nat

namespace Grouping

variable {ι : Type}

/-- Keep the groups that have enough rows. -/
def atLeast (count : Nat) (groups : Groups ι) : Grouping ι :=
  { groups := groups.filter fun group => count ≤ group.2.length
    folded := ((groups.filter fun group => group.2.length < count).flatMap (·.2)).length }

end Grouping

/-- A value in which a node can see nothing. -/
def Node.invalidValue (node : Node) (field : String) (value : Json) : Error :=
  .invalidValue node.name field value.text

/-- How many rows a group must have to be kept. -/
def Node.minCount (node : Node) : Except Error Nat := do
  return (← node.natParam "min_doc_count").getD 0

/-- The span that a node asks to fill with groups: both ends are given, and in order. -/
def Node.extendedBounds {α : Type} (node : Node) (read : Json → Option α)
    (exceeds : α → α → Bool) : Except Error (Option (α × α)) :=
  match node.param? "extended_bounds" with
  | none => .ok none
  | some (.object bounds) =>
      let side (name : String) : Except Error α :=
        match (bounds.lookup name).bind read with
        | some x => .ok x
        | none => .error (node.badParam "extended_bounds" (.badBound name))
      do
        let low ← side "min"
        let high ← side "max"
        if exceeds low high then throw (node.badParam "extended_bounds" .boundsReversed)
        return some (low, high)
  | some _ => .error (node.badParam "extended_bounds" .notObject)

/-- The least span that holds another one, if there is one, and two more points. -/
def widen (span : Option (Int × Int)) (low high : Int) : Int × Int :=
  match span with
  | some (a, b) => (min a low, max b high)
  | none => (low, high)

/-- The least span that holds all points of a list. -/
def spanOf (points : List Int) : Option (Int × Int) :=
  points.foldl (fun span point => some (widen span point point)) none

end Rollup
