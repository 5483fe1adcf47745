import Rollup.Pipeline.Basic

/-! # Resolving pipelines

Once the rest of a level is built its pipelines are computed, in order, from the results beside
them; then the levels below are resolved, bucket by bucket. The results of a level end up in the
order in which its nodes are declared.
-/

namespace Rollup

/-- What a pipeline reads from the results beside it. -/
def siblingValues (node : Node) (path : BucketsPath) (results : Entries Result) :
    Except Error SiblingValues :=
  let fail (fault : DependencyFault) : Except Error SiblingValues :=
    .error (.invalidDependency node.name path.sibling fault)
  let counts (buckets : List Bucket) : SiblingValues :=
    .sequence (buckets.map fun b => (b.key, some (Binary64.ofInt b.count)))
  let metric (inner : PropertyPath) (b : Bucket) : Option Float := do
    let value ← (← b.results.lookup inner.name).value?
    value.property? inner.property
  match results.lookup path.sibling with
  | none => fail .unresolved
  | some sibling => match sibling, path.target with
      | .buckets buckets _, .itself none => .ok (counts buckets)
      | .buckets buckets _, .count => .ok (counts buckets)
      | .buckets buckets _, .metric inner =>
          .ok (.sequence (buckets.map fun b => (b.key, metric inner b)))
      | .value value, .itself property => .ok (.scalar (value.property? property))
      | .series values, .itself none => .ok (.sequence values)
      | _, _ => fail .shapeMismatch

variable [Memory]

/-- Compute one pipeline and add its result to those beside it. -/
def resolvePipeline (results : Entries Result) (node : Node) : Except Error (Entries Result) := do
  match ← Method.find node.typeName none with
  | .pipeline pipeline => do
      let path ← BucketsPath.ofNode node
      let input ← siblingValues node path results
      return Entries.set results node.name (← pipeline.compute node input)
  | _ => return results

/-- Compute the pipelines of a level. -/
def resolvePipelines (nodes : List Node) (results : Entries Result) :
    Except Error (Entries Result) :=
  (nodes.filter Node.isPipeline).foldlM resolvePipeline results

mutual

/-- Resolve the levels below a node. -/
def resolveBelow : Node → Result → Except Error Result
  | ⟨_, _, kind, _, _, children⟩, result =>
      match result with
      | .buckets buckets otherCount =>
          if kind = .bucketing ∧ ¬ children.isEmpty then do
            let buckets ← buckets.mapM fun b => do
              let results ← resolvePipelines children b.results
              return { b with results := ← resolveAllBelow results children }
            return .buckets buckets otherCount
          else return result
      | _ => return result

/-- Resolve the levels below each node of a level, and put its results into the order of nodes. -/
def resolveAllBelow (results : Entries Result) : List Node → Except Error (Entries Result)
  | [] => return []
  | node :: nodes => match results.lookup node.name with
      | none => resolveAllBelow results nodes
      | some result => do
          let result ← resolveBelow node result
          return (node.name, result) :: (← resolveAllBelow results nodes)

end

/-- Resolve the pipelines of a forest whose other nodes are built. -/
def resolve (nodes : List Node) (results : Entries Result) : Except Error (Entries Result) := do
  resolveAllBelow (← resolvePipelines nodes results) nodes

end Rollup
