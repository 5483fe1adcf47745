import Rollup.Result

/-! # Plain form of a result tree

Every result is listed with its name, so that none can hide another.
-/

namespace Rollup.Plain

def valueJson : Value → Json
  | .single x => .ofFloat? x
  | .stats s =>
      .object
        [("count", .ofNat s.count), ("min", .ofFloat? s.min), ("max", .ofFloat? s.max),
         ("sum", .ofFloat? s.sum), ("avg", .ofFloat? s.avg)]
  | .percentiles values =>
      .object [("values", .array (values.map fun (percent, x) =>
        .object [("percent", .ofFloat percent), ("value", .ofFloat? x)]))]

mutual

def resultJson : Result → Json
  | .buckets buckets otherCount =>
      .object (("buckets", .array (bucketsJson buckets)) :: (match otherCount with
        | some n => [("other_count", .ofNat n)]
        | none => []))
  | .value value => valueJson value
  | .series values => .array (values.map fun (key, x) =>
      .object [("key", key.toJson), ("value", .ofFloat? x)])

def bucketsJson : List Bucket → List Json
  | [] => []
  | ⟨key, count, results⟩ :: buckets =>
      .object [("key", key.toJson), ("doc_count", .ofNat count),
        ("aggregations", .array (resultsJson results))] :: bucketsJson buckets

def resultsJson : List (String × Result) → List Json
  | [] => []
  | (name, result) :: results =>
      .object [("name", .string name), ("value", resultJson result)] :: resultsJson results

end

/-- A whole answer. -/
def summaryJson (summary : Summary) : Json :=
  .object [("doc_count", .ofNat summary.count), ("aggregations", .array (resultsJson summary.results))]

end Rollup.Plain
