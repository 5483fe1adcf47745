import Rollup.Json.Printer
import Rollup.Result

/-! # Results in an answer

Each result becomes an object under its name. In a bucket the results below stand beside its key and
count; a result of the same name as one of these takes its place.
-/

namespace Rollup.Answer

/-- A whole percent is written with one decimal, any other one in full. -/
def percentText (percent : Float) : String :=
  if Binary64.isIntegral percent then (Binary64.Layout.mk none true).write percent
  else (Binary64.Layout.mk none false).write percent

def statsJson (stats : Stats) : Json :=
  .object
    [("count", .ofNat stats.count), ("min", .ofFloat? stats.min), ("max", .ofFloat? stats.max),
     ("sum", .ofFloat? stats.sum), ("avg", .ofFloat? stats.avg)]

def valueJson : Value → Json
  | .single x => .object [("value", .ofFloat? x)]
  | .stats stats => statsJson stats
  | .percentiles values =>
      let members := values.map fun (percent, x) => (percentText percent, Json.ofFloat? x)
      .object [("values", .object (Entries.ofList members))]

/-- The key of a bucket, and its written form if it is a date. -/
def keyMembers (key : Key) : Entries Json :=
  ("key", key.toJson) :: (match key.dateText? with
    | some text => [("key_as_string", .string text)]
    | none => [])

mutual

/-- The object of a result. -/
def resultJson : Result → Json
  | .buckets buckets otherCount =>
      .object (("buckets", .array (bucketsJson buckets)) :: (match otherCount with
        | some n => [("other_count", .ofNat n)]
        | none => []))
  | .value value => valueJson value
  | .series values =>
      .object [("buckets", .array (values.map fun (key, x) =>
        .object (keyMembers key ++ [("value", .ofFloat? x)])))]

def bucketsJson : List Bucket → List Json
  | [] => []
  | ⟨key, count, results⟩ :: buckets =>
      .object (Entries.setAll (keyMembers key ++ [("doc_count", .ofNat count)])
        (resultsJson results)) :: bucketsJson buckets

/-- The object of each result under its name. -/
def resultsJson : List (String × Result) → Entries Json
  | [] => []
  | (name, result) :: results => (name, resultJson result) :: resultsJson results

end

/-- All results of an answer. -/
def aggregations (summary : Summary) : Json := .object (Entries.ofList (resultsJson summary.results))

end Rollup.Answer
