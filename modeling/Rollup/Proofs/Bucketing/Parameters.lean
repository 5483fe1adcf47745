import Rollup.Proofs.Bucketing.Rows

/-! # What grouping reads of a node

Rows are put into groups by the field of a node and by its parameters, the order of its buckets and
their number aside.
-/

namespace Rollup

namespace Node

/-- Parameters that are the same but for the order of buckets and their number. -/
def SameGrouping (node : Node) (params : Entries Json) : Prop :=
  ∀ name, name ≠ "order" → name ≠ "size" →
    ({ node with params } : Node).param? name = node.param? name

end Node

variable {node : Node} {params : Entries Json} (same : node.SameGrouping params)

include same

theorem minCount_withParams : ({ node with params } : Node).minCount = node.minCount := by
  simp only [Node.minCount, Node.natParam, same "min_doc_count" (by decide) (by decide)]
  rfl

theorem extendedBounds_withParams {α : Type} (read : Json → Option α) (exceeds : α → α → Bool) :
    ({ node with params } : Node).extendedBounds read exceeds = node.extendedBounds read exceeds := by
  simp only [Node.extendedBounds, same "extended_bounds" (by decide) (by decide)]
  rfl

namespace Histogram

theorem params_withParams : Params.ofNode { node with params } = Params.ofNode node := by
  simp only [Params.ofNode, Node.floatParam, same "interval" (by decide) (by decide),
    same "offset" (by decide) (by decide), minCount_withParams same, extendedBounds_withParams same]
  rfl

end Histogram

namespace DateHistogram

theorem intervalOf_withParams : intervalOf { node with params } = intervalOf node := by
  simp only [intervalOf, Node.stringParam, same "calendar_interval" (by decide) (by decide),
    same "fixed_interval" (by decide) (by decide), same "interval" (by decide) (by decide)]
  rfl

theorem filledSpan_withParams (interval : Calendar.Interval) (points : List Int) :
    filledSpan { node with params } interval points = filledSpan node interval points := by
  simp only [filledSpan, boundsOf, extendedBounds_withParams same]
  rfl

theorem scheme_withParams (limits : Limits) (interval : Calendar.Interval) (minCount : Nat)
    (field : String) : scheme { node with params } limits interval minCount field =
      scheme node limits interval minCount field := by
  simp only [scheme, filledSpan_withParams same]
  rfl

end DateHistogram

namespace Bucketing

theorem schemeOf_withParams (method : Bucketing) (limits : Limits) (field : String) :
    method.schemeOf { node with params } limits field = method.schemeOf node limits field := by
  cases method with
  | terms => rfl
  | histogram =>
      simp only [schemeOf, Histogram.params_withParams same]
      rfl
  | dateHistogram =>
      simp only [schemeOf, DateHistogram.intervalOf_withParams same, minCount_withParams same,
        DateHistogram.scheme_withParams same]

/-- Grouping reads neither the order of buckets nor their number. -/
theorem groupRows_withParams (method : Bucketing) (limits : Limits) (rows : List Row) :
    method.groupRows { node with params } limits rows = method.groupRows node limits rows := by
  simp only [groupRows, schemeOf_withParams same]
  rfl

end Bucketing

end Rollup
