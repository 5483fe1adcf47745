import Rollup.Bucketing.Basic
import Rollup.Metric.Basic

/-! # Building buckets and metrics

Everything but the pipelines is built from rows. All buckets of a request draw on one budget: the
buckets that a node keeps are paid for before anything below them is built, and a request that
cannot pay fails. Metrics that an order reads are computed for every group, before groups are cut
off, and are not computed again.
-/

namespace Rollup

/-- Work that draws on the budget of buckets; the state is how many have been created. -/
abbrev BuildM := StateT Nat (Except Error)

/-- Pay for buckets. -/
def reserve (limits : Limits) (count : Nat) : BuildM Unit := do
  let created := (← get) + count
  if limits.buckets < created then throw (.tooManyBuckets limits.buckets)
  set created

/-- A group that is to become a bucket, with the metrics that the order of buckets reads. -/
structure Candidate (ι : Type) where
  key : Key
  ids : List ι
  metrics : Entries Value

namespace Candidate

variable {ι : Type}

def count (candidate : Candidate ι) : Nat := candidate.ids.length

/-- The number by which a clause sorts. -/
def number? (path : PropertyPath) (candidate : Candidate ι) : Option Float :=
  (candidate.metrics.lookup path.name).bind (·.property? path.property)

end Candidate

def directed (descending : Bool) (ordering : Ordering) : Ordering :=
  if descending then ordering.swap else ordering

/-- Compare by one clause. A bucket without a number comes last in either direction. -/
def OrderClause.compare {ι : Type} (clause : OrderClause) (a b : Candidate ι) : Ordering :=
  match clause.target with
  | .count => directed clause.descending (Ord.compare a.count b.count)
  | .key => directed clause.descending (a.key.compare b.key)
  | .metric path => match a.number? path, b.number? path with
      | some x, some y => directed clause.descending (Binary64.compareTotal x y)
      | some _, none => .lt
      | none, some _ => .gt
      | none, none => .eq

/-- Compare by each clause in turn, and at last by key. -/
def BucketOrder.compare {ι : Type} (order : BucketOrder) (a b : Candidate ι) : Ordering :=
  match order with
  | [] => a.key.compare b.key
  | clause :: clauses => (clause.compare a b).then (BucketOrder.compare clauses a b)

/-- Compute the metric child of a name for each candidate. What is no metric child is left alone. -/
def addMetric (node : Node) (rows : RowSet) (candidates : List (Candidate (Fin rows.rows.size)))
    (name : String) : Except Error (List (Candidate (Fin rows.rows.size))) :=
  match node.child? name with
  | none => .ok candidates
  | some child => do
      match ← Method.find child.typeName none with
      | .metric metric => candidates.mapM fun c => do
          let value ← metric.compute child (rows.select c.ids)
          return { c with metrics := Entries.set c.metrics child.name value }
      | _ => return candidates

/-- The buckets that a node keeps, in order, and how many rows are in those it does not, if there are
any. -/
def selectBuckets (limits : Limits) (method : Bucketing) (node : Node) (rows : RowSet) :
    Except Error (List (Candidate (Fin rows.rows.size)) × Option Nat) := do
  let order := (← BucketOrder.ofNode? node).getD method.defaultOrder
  let size := (← node.natParam "size") <|> method.defaultSize limits
  let grouping ← method.group node rows limits
  let candidates := grouping.groups.map fun (key, ids) => { key, ids, metrics := [] }
  let candidates ← order.metricChildren.foldlM (addMetric node rows) candidates
  let sorted := candidates.mergeSort fun a b => (order.compare a b).isLE
  let kept := size.elim sorted sorted.take
  let cut := size.elim [] sorted.drop
  let folded := grouping.folded + (cut.flatMap (·.ids)).length
  return (kept, if 0 < grouping.folded ∨ ¬ cut.isEmpty then some folded else none)

mutual

/-- Build a node from rows. -/
def build (limits : Limits) (rows : RowSet) : Node → BuildM Result
  | ⟨name, typeName, kind, field, params, children⟩ => do
      let node : Node := ⟨name, typeName, kind, field, params, children⟩
      match ← Method.find typeName none with
      | .metric metric => return .value (← metric.compute node rows)
      | .pipeline _ => throw (.invalidAggregation name .notBuiltFromRows)
      | .bucketing method => do
          let (candidates, otherCount) ← selectBuckets limits method node rows
          reserve limits candidates.length
          let buckets ← candidates.mapM fun c => do
            let results ← buildAll limits (rows.select c.ids) c.metrics children
            return { key := c.key, count := c.count, results }
          return .buckets buckets otherCount

/-- Build the nodes of a level, in order. Metrics that are known already are not computed again, and
pipelines are left out. -/
def buildAll (limits : Limits) (rows : RowSet) (metrics : Entries Value) :
    List Node → BuildM (Entries Result)
  | [] => return []
  | node :: nodes => do
      if node.isPipeline then buildAll limits rows metrics nodes
      else
        let result ← match metrics.lookup node.name with
          | some value => pure (.value value)
          | none => build limits rows node
        return (node.name, result) :: (← buildAll limits rows metrics nodes)

end

end Rollup
