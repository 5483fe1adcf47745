import Rollup.Aggregation.Node

/-! # Bucket order

An order is a list of clauses, applied one after another; keys in ascending order decide what the
clauses leave open. A clause sorts by count, by key, or by a number read from a metric child.
-/

namespace Rollup

/-- A name, and behind its first point the property to read. -/
structure PropertyPath where
  name : String
  property : Option String
  deriving DecidableEq, Repr

namespace PropertyPath

/-- Split at the first point: `stats.max` names the property `max`, `pct.99.5` the property
`99.5`. -/
def ofText (text : String) : PropertyPath :=
  let chars := text.toList
  match chars.dropWhile (· ≠ '.') with
  | [] => ⟨text, none⟩
  | _ :: property => ⟨String.ofList (chars.takeWhile (· ≠ '.')), some (String.ofList property)⟩

end PropertyPath

/-- What a clause sorts by. -/
inductive OrderTarget where
  | count
  | key
  | metric (path : PropertyPath)
  deriving DecidableEq, Repr

structure OrderClause where
  target : OrderTarget
  descending : Bool
  deriving DecidableEq, Repr

abbrev BucketOrder := List OrderClause

namespace OrderTarget

/-- Three names stand for the key. -/
def ofText (text : String) : OrderTarget :=
  if text = "_count" then .count
  else if text = "_key" ∨ text = "_term" ∨ text = "_time" then .key
  else .metric (.ofText text)

/-- The child that a target reads. -/
def child? : OrderTarget → Option String
  | .metric path => some path.name
  | _ => none

end OrderTarget

namespace BucketOrder

/-- Most rows first. -/
def countDescending : BucketOrder := [⟨.count, true⟩]

def keyAscending : BucketOrder := [⟨.key, false⟩]

/-- The metric children that an order reads, clause by clause. -/
def metricChildren (order : BucketOrder) : List String := order.filterMap (·.target.child?)

/-- One member of an order: a target and its direction. -/
def clauseOf (node : Node) (member : String × Json) : Except Error OrderClause :=
  if member.2.string? = some "desc" then .ok ⟨.ofText member.1, true⟩
  else if member.2.string? = some "asc" then .ok ⟨.ofText member.1, false⟩
  else .error (node.badParam "order" .badDirection)

/-- One entry of an order: an object of targets and directions. -/
def clausesOf (node : Node) (entry : Json) : Except Error (List OrderClause) :=
  match entry with
  | .object members => members.mapM (clauseOf node)
  | _ => .error (node.badParam "order" .notObject)

/-- The order that a node asks for: one entry, or a list of them. -/
def ofNode? (node : Node) : Except Error (Option BucketOrder) :=
  match node.param? "order" with
  | none => .ok none
  | some value => do
      let entries := match value with
        | .array items => items
        | entry => [entry]
      let clauses ← entries.mapM (clausesOf node)
      if clauses.flatten.isEmpty then throw (node.badParam "order" .emptyOrder)
      return some clauses.flatten

end BucketOrder

end Rollup
