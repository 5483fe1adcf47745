import Rollup.Bucketing.Basic
import Rollup.Metric.Basic
import Rollup.Pipeline.Basic

/-! # Validation

A forest is checked before any row is read. Each level is checked in three passes: every node by
itself, then what its pipelines read, then the levels below.
-/

namespace Rollup

/-- Check the parameters of a node. -/
def Method.validate (method : Method) (node : Node) : Except Error Unit :=
  match method with
  | .bucketing b => b.validate node
  | .metric m => m.validate node
  | .pipeline p => p.validate node

/-- Whether a property can be read from a value of a shape. -/
def Shape.checkProperty (shape : Shape) (property : Option String) :
    Except PropertyFault Unit :=
  match shape, property with
  | .single, none => .ok ()
  | .single, some name => if name = "value" then .ok () else .error (.single name)
  | .stats, some name => if name ∈ Stats.propertyNames then .ok () else .error .stats
  | .stats, none => .error .stats
  | .percentiles, some text =>
      if (Binary64.ofString? text).isSome then .ok () else .error .percentiles
  | .percentiles, none => .error .percentiles

namespace Node

/-- The shape of the metric child of a name, if there is one. -/
def metricShape? (node : Node) (name : String) : Option Shape := do
  let child ← node.child? name
  if child.kind ≠ .metric then none
  else (← Method.ofName? child.typeName).shape?

/-- An order may read metric children only, and only what they have. -/
def validateOrder (node : Node) : Except Error Unit := do
  let some order ← BucketOrder.ofNode? node | return
  order.forM fun clause =>
    match clause.target with
    | .metric path => match node.metricShape? path.name with
        | none => .error (.invalidAggregation node.name (.orderPath path.name))
        | some shape => match shape.checkProperty path.property with
            | .ok () => .ok ()
            | .error fault => .error (.invalidAggregation node.name (.orderProperty fault))
    | _ => .ok ()

/-- Check a node by itself. -/
def validate (node : Node) : Except Error Unit := do
  let method ← node.method
  if method.kind ≠ node.kind then
    throw (.invalidAggregation node.name (.kindMismatch node.kind node.typeName))
  if node.kind ≠ .bucketing ∧ ¬ node.children.isEmpty then
    throw (.invalidAggregation node.name (.childrenNotAllowed node.typeName))
  method.validate node
  if node.kind = .bucketing then node.validateOrder

end Node

namespace Forest

/-- Check the nodes of a level by themselves, in order. Names differ from those before. -/
def validateNodes (seen : List String) : List Node → Except Error Unit
  | [] => .ok ()
  | node :: nodes => do
      if node.name ∈ seen then throw (.invalidAggregation node.name .duplicateName)
      node.validate
      validateNodes (node.name :: seen) nodes

/-- Check what a pipeline reads. `earlier` are the nodes declared before it, and `sequences` the names
of nodes that are known to yield one value for each bucket. -/
def validateDependency (siblings : List Node) (ancestors : List String) (earlier : List Node)
    (sequences : List String) (node : Node) : Except Error Unit := do
  let path ← BucketsPath.ofNode node
  let fail (fault : DependencyFault) : Except Error Unit :=
    .error (.invalidDependency node.name path.sibling fault)
  let checkProperty (shape : Shape) (property : Option String) : Except Error Unit :=
    match shape.checkProperty property with
    | .ok () => .ok ()
    | .error fault => fail (.property fault)
  if path.sibling = node.name then fail .itself
  else match siblings.find? (·.name = path.sibling) with
    | none => if path.sibling ∈ ancestors then fail .ancestor else fail .noSibling
    | some target =>
        match target.kind, path.target with
        | .bucketing, .itself none => return
        | .bucketing, .count => return
        | .bucketing, .itself (some _) => fail .bucketingProperty
        | .bucketing, .metric inner => match target.metricShape? inner.name with
            | none => fail (.notMetricChild inner.name)
            | some shape => checkProperty shape inner.property
        | _, .count => fail .notBucketing
        | _, .metric _ => fail .notBucketing
        | kind, .itself property => do
            if kind = .pipeline ∧ ¬ earlier.any (·.name = target.name) then fail .declaredLater
            else
              let requiresSequence : Bool := match ← node.method with
                | .pipeline pipeline => pipeline.requiresSequence
                | _ => false
              if requiresSequence ∧ target.name ∉ sequences then fail (.singleValue node.typeName)
              else checkProperty ((← target.method).shape?.getD .single) property

/-- Whether a pipeline yields one value for each bucket, given the names of the nodes before it that
do: a parallel one does if it reads from buckets or from such a node. -/
def yieldsSequence (sequences : List String) (node : Node) : Bool :=
  match Method.ofName? node.typeName with
  | some (.pipeline pipeline) => pipeline.isParallel && match BucketsPath.ofNode node with
      | .ok ⟨_, .count⟩ => true
      | .ok ⟨_, .metric _⟩ => true
      | .ok ⟨sibling, .itself _⟩ => sibling ∈ sequences
      | .error _ => false
  | _ => false

/-- Check what the pipelines of a level read, in order. -/
def validatePipelines (siblings : List Node) (ancestors : List String) (earlier : List Node)
    (sequences : List String) : List Node → Except Error Unit
  | [] => .ok ()
  | node :: nodes => do
      if node.isPipeline then
        validateDependency siblings ancestors earlier sequences node
        let sequences :=
          if yieldsSequence sequences node then node.name :: sequences else sequences
        validatePipelines siblings ancestors (node :: earlier) sequences nodes
      else validatePipelines siblings ancestors (node :: earlier) sequences nodes

/-- Check one level. -/
def validateLevel (ancestors : List String) (nodes : List Node) : Except Error Unit := do
  validateNodes [] nodes
  let bucketing := nodes.filter (·.kind = .bucketing)
  validatePipelines nodes ancestors [] (bucketing.map (·.name)) nodes

mutual

/-- Check the levels below a node. -/
def validateBelow (ancestors : List String) : Node → Except Error Unit
  | ⟨name, _, _, _, _, children⟩ => do
      validateLevel (name :: ancestors) children
      validateAllBelow (name :: ancestors) children

def validateAllBelow (ancestors : List String) : List Node → Except Error Unit
  | [] => .ok ()
  | node :: nodes => do
      validateBelow ancestors node
      validateAllBelow ancestors nodes

end

/-- Check a whole forest. -/
def validate (nodes : List Node) : Except Error Unit := do
  validateLevel [] nodes
  validateAllBelow [] nodes

end Forest

end Rollup
