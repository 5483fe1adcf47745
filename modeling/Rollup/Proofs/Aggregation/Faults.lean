import Rollup.Aggregation.Validation
import Rollup.Proofs.Success

/-! # Faults of a request

Reading the parameters of a node and checking a forest go wrong in one way only: with an error that is
found in the request itself. It is about what a node holds or reads, unless a name is taken twice or a
node is taken for another kind than its method has.
-/

namespace Rollup

/-- Errors that are found in the request itself. -/
def OfRequest (e : Error) : Prop := e.isValidation = true

/-- Whether a node is at fault by its own name or kind. -/
def NodeFault.isOfIdentity : NodeFault → Bool
  | .duplicateName => true
  | .kindMismatch .. => true
  | _ => false

/-- Errors of a request that are about what a node holds or reads. -/
def OfContent : Error → Prop
  | .invalidAggregation _ fault => fault.isOfIdentity = false
  | e => OfRequest e

theorem OfContent.ofRequest {e : Error} (h : OfContent e) : OfRequest e := by
  cases e with
  | invalidAggregation => rfl
  | _ => exact h

theorem RaisesOnly.ofRequest {α : Type} {x : Except Error α} (h : RaisesOnly OfContent x) :
    RaisesOnly OfRequest x :=
  h.imp fun _ => OfContent.ofRequest

theorem find_raises (name : String) (field : Option String) :
    RaisesOnly OfContent (Method.find name field) := by
  unfold Method.find
  split
  · exact .ok
  · exact .error rfl
  · exact .error rfl

/-! ## Parameters -/

section Parameters

variable (node : Node) (name : String)

theorem requireField_raises : RaisesOnly OfContent node.requireField := by
  unfold Node.requireField
  split
  · exact .ok
  · exact .error rfl

theorem natParam_raises : RaisesOnly OfContent (node.natParam name) := by
  unfold Node.natParam
  split
  · exact .ok
  · split
    · exact .ok
    · exact .error rfl

theorem floatParam_raises : RaisesOnly OfContent (node.floatParam name) := by
  unfold Node.floatParam
  split
  · exact .ok
  · exact .ok
  · split
    · exact .ok
    · exact .error rfl
  · exact .error rfl

theorem stringParam_raises : RaisesOnly OfContent (node.stringParam name) := by
  unfold Node.stringParam
  split
  · exact .ok
  · exact .ok
  · exact .error rfl

theorem positiveParam_raises : RaisesOnly OfContent (node.positiveParam name) := by
  apply RaisesOnly.bind (natParam_raises node name)
  intro value
  split
  · exact .error rfl
  · exact .ok

theorem checkSize_raises : RaisesOnly OfContent node.checkSize :=
  .bind (positiveParam_raises node "size") fun _ => .ok

theorem minCount_raises : RaisesOnly OfContent node.minCount :=
  .bind (natParam_raises node "min_doc_count") fun _ => .ok

theorem extendedBounds_raises {α : Type} (read : Json → Option α) (exceeds : α → α → Bool) :
    RaisesOnly OfContent (node.extendedBounds read exceeds) := by
  unfold Node.extendedBounds
  split
  · exact .ok
  · refine .bind ?_ fun low => .bind ?_ fun high => ?_
    iterate 2
      · dsimp only
        split
        · exact .ok
        · exact .error rfl
    · split
      · exact .error rfl
      · exact .ok
  · exact .error rfl

theorem order_raises : RaisesOnly OfContent (BucketOrder.ofNode? node) := by
  unfold BucketOrder.ofNode?
  split
  · exact .ok
  · refine .bind (.mapM fun entry _ => ?_) fun clauses => ?_
    · unfold BucketOrder.clausesOf
      split
      · refine .mapM fun member _ => ?_
        unfold BucketOrder.clauseOf
        split
        · exact .ok
        · split
          · exact .ok
          · exact .error rfl
      · exact .error rfl
    · split
      · exact .error rfl
      · exact .ok

theorem histogramParams_raises : RaisesOnly OfContent (Histogram.Params.ofNode node) := by
  unfold Histogram.Params.ofNode
  refine .bind (floatParam_raises node "interval") fun interval => ?_
  split
  · split
    · exact .error rfl
    · exact .bind (floatParam_raises node "offset") fun offset => .bind (minCount_raises node)
        fun minCount => .bind (extendedBounds_raises node _ _) fun bounds => .ok
  · exact .error rfl

theorem intervalOf_raises : RaisesOnly OfContent (DateHistogram.intervalOf node) := by
  unfold DateHistogram.intervalOf
  refine .bind (stringParam_raises node _) fun unit => .bind (stringParam_raises node _)
    fun width => .bind (stringParam_raises node _) fun either => ?_
  dsimp only
  split
  iterate 3
    · split
      · exact .ok
      · exact .error rfl
  · exact .error rfl
  · exact .error rfl

theorem percentsOf_raises : RaisesOnly OfContent (Percentiles.percentsOf node) := by
  unfold Percentiles.percentsOf
  split
  · exact .ok
  · refine .mapM fun item _ => ?_
    split
    · split
      · exact .ok
      · exact .error rfl
    · exact .error rfl
  · exact .error rfl

theorem path_raises : RaisesOnly OfContent (BucketsPath.ofNode node) := by
  refine .bind ?_ fun text => ?_
  · unfold BucketsPath.textOfNode
    split
    · exact .ok
    · split
      · exact .ok
      · exact .error rfl
    · exact .error rfl
    · exact .error rfl
  · split
    · exact .ok
    · exact .error rfl

theorem gapPolicy_raises : RaisesOnly OfContent (GapPolicy.ofNode node) := by
  refine .bind (stringParam_raises node "gap_policy") fun policy => ?_
  split
  · exact .ok
  · exact .ok
  · exact .ok
  · exact .error rfl

theorem windowOf_raises : RaisesOnly OfContent (Pipeline.windowOf node) :=
  .bind (positiveParam_raises node "window") fun _ => .ok

end Parameters

/-! ## Nodes -/

section Nodes

variable (node : Node)

theorem validateBucketing_raises (method : Bucketing) :
    RaisesOnly OfContent (method.validate node) := by
  cases method with
  | terms => exact .bind (requireField_raises node) fun _ => checkSize_raises node
  | histogram =>
      exact .bind (requireField_raises node) fun _ => .bind (checkSize_raises node) fun _ =>
        .bind (histogramParams_raises node) fun _ => .ok
  | dateHistogram =>
      exact .bind (requireField_raises node) fun _ => .bind (checkSize_raises node) fun _ =>
        .bind (intervalOf_raises node) fun _ => .bind (minCount_raises node) fun _ =>
          .bind (extendedBounds_raises node _ _) fun _ => .ok

theorem validateMetric_raises (metric : Metric) : RaisesOnly OfContent (metric.validate node) := by
  refine .bind (requireField_raises node) fun _ => ?_
  split
  · exact .bind (percentsOf_raises node) fun _ => .ok
  · exact .ok

theorem validatePipeline_raises (pipeline : Pipeline) :
    RaisesOnly OfContent (pipeline.validate node) := by
  unfold Pipeline.validate
  dsimp only
  split
  · exact .error rfl
  · refine .bind (path_raises node) fun _ => .bind (gapPolicy_raises node) fun _ => ?_
    split
    · exact .bind (windowOf_raises node) fun _ => .ok
    · exact .ok

theorem validateOrder_raises : RaisesOnly OfContent node.validateOrder := by
  refine .bind (order_raises node) fun order => ?_
  split
  · refine .forM fun clause _ => ?_
    split
    · split
      · exact .error rfl
      · split
        · exact .ok
        · exact .error rfl
    · exact .ok
  · exact .ok

/-- Once its kind is known to be that of its method, only what a node holds can be at fault. -/
theorem validateContent_raises (method : Method) : RaisesOnly OfContent (do
    if node.kind ≠ .bucketing ∧ ¬ node.children.isEmpty then
      throw (.invalidAggregation node.name (.childrenNotAllowed node.typeName))
    method.validate node
    if node.kind = .bucketing then node.validateOrder) := by
  refine .refuse rfl (.bind ?_ fun _ => ?_)
  · cases method with
    | bucketing method => exact validateBucketing_raises node method
    | metric metric => exact validateMetric_raises node metric
    | pipeline pipeline => exact validatePipeline_raises node pipeline
  · split
    · exact validateOrder_raises node
    · exact .ok

theorem validateNode_raises : RaisesOnly OfRequest node.validate := by
  refine .bind (find_raises _ _).ofRequest fun method => .refuse rfl ?_
  exact (validateContent_raises node method).ofRequest

end Nodes

namespace Forest

theorem validateNodes_raises (seen : List String) (nodes : List Node) :
    RaisesOnly OfRequest (validateNodes seen nodes) := by
  induction nodes generalizing seen with
  | nil => exact .ok
  | cons node nodes ih =>
      rw [validateNodes]
      exact .refuse rfl (.bind (validateNode_raises node) fun _ => ih _)

theorem property_raises (node : Node) (sibling : String) (shape : Shape) (property : Option String) :
    RaisesOnly OfContent (match shape.checkProperty property with
      | .ok () => .ok ()
      | .error fault => .error (.invalidDependency node.name sibling (.property fault)) :
        Except Error Unit) := by
  split
  · exact .ok
  · exact .error rfl

theorem validateDependency_raises (siblings : List Node) (ancestors : List String)
    (earlier : List Node) (sequences : List String) (node : Node) :
    RaisesOnly OfContent (validateDependency siblings ancestors earlier sequences node) := by
  refine .bind (path_raises node) fun path => ?_
  dsimp only
  split
  · exact .error rfl
  split
  · split
    · exact .error rfl
    · exact .error rfl
  split
  · exact .ok
  · exact .ok
  · exact .error rfl
  · split
    · exact .error rfl
    · exact property_raises node _ _ _
  · exact .error rfl
  · exact .error rfl
  · split
    · exact .error rfl
    · refine .bind (find_raises _ _) fun method => ?_
      have otherwise {target : Node} {asked : Option String} := RaisesOnly.bind
        (find_raises target.typeName target.field) fun method : Method =>
          property_raises node path.sibling (method.shape?.getD .single) asked
      cases method with
      | pipeline pipeline =>
          dsimp only
          split
          · exact .error rfl
          · exact otherwise
      | _ => exact otherwise

theorem validatePipelines_raises (siblings : List Node) (ancestors : List String)
    (earlier : List Node) (sequences : List String) (nodes : List Node) :
    RaisesOnly OfContent (validatePipelines siblings ancestors earlier sequences nodes) := by
  induction nodes generalizing earlier sequences with
  | nil => exact .ok
  | cons node nodes ih =>
      rw [validatePipelines]
      split
      · exact .bind (validateDependency_raises siblings ancestors earlier sequences node)
          fun _ => ih _ _
      · exact ih _ _

theorem validateLevel_raises (ancestors : List String) (nodes : List Node) :
    RaisesOnly OfRequest (validateLevel ancestors nodes) :=
  .bind (validateNodes_raises [] nodes) fun _ =>
    (validatePipelines_raises nodes ancestors [] _ nodes).ofRequest

mutual

theorem validateBelow_raises (ancestors : List String) : ∀ node : Node,
    RaisesOnly OfRequest (validateBelow ancestors node)
  | ⟨name, typeName, kind, field, params, children⟩ => by
      rw [validateBelow]
      exact .bind (validateLevel_raises _ children) fun _ => validateAllBelow_raises _ children

theorem validateAllBelow_raises (ancestors : List String) : ∀ nodes : List Node,
    RaisesOnly OfRequest (validateAllBelow ancestors nodes)
  | [] => by
      rw [validateAllBelow]
      exact .ok
  | node :: nodes => by
      rw [validateAllBelow]
      exact .bind (validateBelow_raises ancestors node) fun _ => validateAllBelow_raises ancestors nodes

end

/-- A forest is refused with an error that is found in the request. -/
theorem validate_raises (nodes : List Node) : RaisesOnly OfRequest (validate nodes) :=
  .bind (validateLevel_raises [] nodes) fun _ => validateAllBelow_raises [] nodes

end Forest

end Rollup
