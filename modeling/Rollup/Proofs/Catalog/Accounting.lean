import Rollup.Proofs.Aggregation.Accounting
import Rollup.Proofs.Catalog.Projection
import Rollup.Proofs.Engine.Aggregate
import Rollup.Proofs.Engine.Execute

/-! # Answers over a catalog

A catalog brings every node as many rows as it counts, so the buckets of an answer account for the
rows that the answer says it saw.
-/

namespace Rollup.Catalog

/-- A catalog brings every node as many rows as it counts. -/
theorem fetch_of_count {catalog : Catalog} {request : Request} {count : Nat}
    (counted : catalog.count request.table request.filter = .ok count) (node : Node) :
    ∃ rows, catalog.fetch (Engine.scopeOf request node) = .ok rows ∧ rows.length = count := by
  rw [count_matching] at counted
  obtain ⟨rows, matching, length⟩ := map_eq_ok.mp counted
  refine ⟨rows.map (project node.columns), ?_, (List.length_map _).trans length⟩
  rw [fetch_matching, matching]
  rfl

/-- Every row is accounted for exactly once at every level. Wherever buckets stand in an answer over a
catalog, their counts and the rows counted among the others add up to the count above them, which is
that of the answer at the top and that of the enclosing bucket below; no two buckets share a key; and
others are mentioned exactly if some bucket that the node forms over its rows is not shown. -/
theorem rows_accounted [Memory] {catalog : Catalog} {limits : Limits} {request : Request}
    {cancelled : Bool} {summary : Summary}
    (answered : (Engine.execute catalog.source limits request cancelled).answer =
      some (.ok summary))
    {node : Node} (hnode : node ∈ request.nodes) {result : Result}
    (member : (node.name, result) ∈ summary.results) :
    ∃ rows, catalog.fetch (Engine.scopeOf request node) = .ok rows ∧
      rows.length = summary.count ∧
      ∀ site, Relation.ReflTransGen Site.Below ⟨node, rows, summary.count, result⟩ site →
        ∀ buckets other, site.result = .buckets buckets other →
          (buckets.map (·.count)).sum + other.getD 0 = site.count ∧
          (buckets.map (·.key)).Nodup ∧
          (other.isSome ↔
            ∃ key, site.node.Forms limits site.rows key ∧ key ∉ buckets.map (·.key)) := by
  obtain ⟨valid, counted, built, level, resolved⟩ := Engine.execute_eq_ok answered
  obtain ⟨rows, fetch, length⟩ := fetch_of_count counted node
  refine ⟨rows, fetch, length, fun site path buckets other is => ?_⟩
  have fetched : Engine.fetchedRows catalog.source request node = rows := by
    rw [Engine.fetchedRows, show catalog.source.fetch _ = _ from fetch]
    rfl
  have sound := Site.sound_of_level valid level resolved hnode member
  rw [fetched, length] at sound
  exact Site.accounts (Site.sound_of_path sound path) is

/-- The country with the most visits, by name. -/
def topCountry : Node :=
  ⟨"country", "terms", .bucketing, some "country", [("size", .number (.int 1))], []⟩

theorem rows_accounted_visits :
    (Engine.execute (source [("visits", Engine.visits)]) {} ⟨"visits", none, [topCountry]⟩
        false).answer =
      some (.ok ⟨3, [("country", .buckets [⟨.str "fr", 2, []⟩] (some 1))]⟩) ∧
    ∃ rows, fetch [("visits", Engine.visits)]
        (Engine.scopeOf ⟨"visits", none, [topCountry]⟩ topCountry) = .ok rows ∧
      2 + 1 = rows.length ∧ ∃ key, topCountry.Forms {} rows key ∧ key ∉ [Key.str "fr"] := by
  have answered : (Engine.execute (source [("visits", Engine.visits)]) {}
        ⟨"visits", none, [topCountry]⟩ false).answer =
      some (.ok ⟨3, [("country", .buckets [⟨.str "fr", 2, []⟩] (some 1))]⟩) := by
    cbv
  refine ⟨answered, ?_⟩
  obtain ⟨rows, fetched, length, accounted⟩ := rows_accounted answered
    (List.mem_singleton_self topCountry) (List.mem_singleton_self _)
  obtain ⟨total, -, dropped⟩ := accounted _ .refl _ _ rfl
  exact ⟨rows, fetched, total.trans length.symm, dropped.mp rfl⟩

end Rollup.Catalog
