import Rollup.Proofs.Aggregation.NarrowResolved
import Rollup.Proofs.Engine.Levels

/-! # Siblings do not interfere

What a node is answered does not depend on its siblings, a pipeline's own sibling aside, nor on their
order. The answer to a forest with fewer nodes can be read off that to the whole forest.
-/

namespace Rollup.Engine

variable {limits : Limits} {nodes nodes' : List Node} {rows : List Row} {summary : Summary}

/-- A forest that loses nodes, or has siblings in another order, is answered what is left of the answer:
the same buckets in the same order, and in them the results of the nodes that are left, in the order
of these nodes. None of them lacks its result, on any level. -/
theorem aggregate_reduced [Memory] (reduces : Forest.Reduces nodes nodes')
    (valid' : Forest.validate nodes' = .ok ()) (answered : aggregate limits nodes rows = .ok summary) :
    aggregate limits nodes' rows =
        .ok { count := summary.count, results := Forest.narrow nodes' summary.results } ∧
      ∀ level results, LevelOf nodes' (Forest.narrow nodes' summary.results) level results →
        results.map (·.1) = level.map (·.name) := by
  obtain ⟨valid, built, evaluated, within, resolved, count⟩ := aggregate_eq_ok.mp answered
  have answered' : aggregate limits nodes' rows =
      .ok { count := summary.count, results := Forest.narrow nodes' summary.results } :=
    aggregate_eq_ok.mpr ⟨valid', Forest.narrow nodes' built,
      evaluateAll_reduced limits nodes' reduces valid valid' rows built evaluated,
      (bucketCountOf_narrow nodes' valid' built).trans within,
      resolve_reduced limits nodes' reduces valid valid' rows built _ evaluated resolved, count⟩
  refine ⟨answered', fun level results reached => ?_⟩
  obtain ⟨rows, summary, answered, rfl⟩ := answer_of_level answered' reached
  obtain ⟨valid, built, evaluated, -, resolved, -⟩ := aggregate_eq_ok.mp answered
  exact names_of_resolve valid evaluated resolved

/-! ## Trips without the most visited city -/

def fewerRegions : Node := { regions with children := [visited, mostVisited] }

theorem reduces_regions : Forest.Reduces [regions] [fewerRegions] :=
  .keep (.reorder (.keep .nil (.keep .nil (.drop .nil))) (.swap _ _ _)) .nil

theorem aggregate_reduced_trips :
    Forest.Reduces [regions] [fewerRegions] ∧ Forest.validate [fewerRegions] = .ok () ∧
      aggregate {} [regions] trips = .ok tripsByRegion ∧
      aggregate {} [fewerRegions] trips = .ok
        { count := 3
          results := [("regions", .buckets [⟨.str "fr", 3,
            [("visited", .series [(.str "lyon", some 2.0)]), ("cities", citiesVisited)]⟩] none)] } := by
  have valid : Forest.validate [fewerRegions] = .ok () := by cbv
  exact ⟨reduces_regions, valid, aggregate_trips,
    (aggregate_reduced reduces_regions valid aggregate_trips).1⟩

end Rollup.Engine
