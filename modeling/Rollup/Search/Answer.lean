import Rollup.Answer.Aggregations
import Rollup.Engine
import Rollup.Search.Forest

/-! # Answers to searches

An answer wraps the count of rows and the results. The time that a search takes is not told.
-/

namespace Rollup.Search

/-- The answer to a search whose summary is known. Results stand in it if the body asks for
aggregations, even if it names none. -/
def answer (body : Body) (summary : Summary) : Json :=
  .object <|
    [("took", .ofNat 0),
     ("timed_out", .bool false),
     ("_shards", .object
       [("total", .ofNat 1), ("successful", .ofNat 1), ("skipped", .ofNat 0), ("failed", .ofNat 0)]),
     ("hits", .object
       [("total", .object [("value", .ofNat summary.count), ("relation", .string "eq")]),
        ("max_score", .null),
        ("hits", .array [])])]
    ++ (if body.aggregations.isSome then [("aggregations", Answer.aggregations summary)] else [])

/-- Search a table. -/
def search [Memory] (source : Source) (limits : Limits) (table : String) (body : Body) :
    Except Error Json := do
  let nodes ← body.nodes
  match Engine.answer source limits { table, filter := body.filter, nodes } with
  | .ok summary => return answer body summary
  | .error error => throw (.engine error)

end Rollup.Search
