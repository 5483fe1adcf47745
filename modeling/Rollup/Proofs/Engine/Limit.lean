import Rollup.Proofs.Aggregation.Limit
import Rollup.Proofs.Engine.Aggregate

/-! # The limit on buckets

The limit is on all buckets of an answer together. An answer that fits is the same under every higher
limit, and one that does not fit is refused.
-/

namespace Rollup.Engine

variable {limits : Limits} {nodes : List Node} {rows : List Row} {summary : Summary}

/-- Under another limit an answer stays what it is, or the buckets run out. -/
theorem aggregate_sameOrSpent [Memory] (limits : Limits) (bound : Nat) (nodes : List Node)
    (rows : List Row) :
    SameOrSpent limits.buckets bound (aggregate limits nodes rows)
      (aggregate { limits with buckets := bound } nodes rows) :=
  (SameOrSpent.refl _).bind fun _ =>
    (buildAll_sameWork limits bound nodes (.all rows.toArray) [] 0).bind fun _ => .refl _

theorem bucketCount_le_of_aggregate [Memory] (answered : aggregate limits nodes rows = .ok summary) :
    bucketCountOf summary.results ≤ limits.buckets := by
  obtain ⟨valid, built, evaluated, within, resolved, -⟩ := aggregate_eq_ok.mp answered
  rw [bucketCountOf_resolve valid evaluated resolved]
  exact within

/-- The limit on buckets is exact and counts the buckets of the whole answer, at all levels. -/
theorem limit_exact [Memory] (answered : aggregate limits nodes rows = .ok summary) :
    bucketCountOf summary.results ≤ limits.buckets ∧
      (∀ more, limits.buckets ≤ more →
        aggregate { limits with buckets := more } nodes rows = .ok summary) ∧
      ∀ less, less < bucketCountOf summary.results →
        aggregate { limits with buckets := less } nodes rows = .error (.tooManyBuckets less) := by
  refine ⟨bucketCount_le_of_aggregate answered, fun more higher => ?_, fun less lower => ?_⟩
  · rcases aggregate_sameOrSpent limits more nodes rows summary answered with same | ⟨lower, -⟩
    · exact same
    · exact absurd lower (Nat.not_lt.mpr higher)
  · rcases aggregate_sameOrSpent limits less nodes rows summary answered with same | ⟨-, spent⟩
    · exact absurd lower (Nat.not_lt.mpr (bucketCount_le_of_aggregate same))
    · exact spent

theorem limit_exact_visits :
    bucketCountOf visitsByCountry.results ≤ 5 ∧
      aggregate { buckets := 6 } [country] visits = .ok visitsByCountry ∧
      aggregate { buckets := 4 } [country] visits = .error (.tooManyBuckets 4) := by
  have answered : aggregate { buckets := 5 } [country] visits = .ok visitsByCountry := by cbv
  obtain ⟨enough, higher, lower⟩ := limit_exact answered
  exact ⟨enough, higher 6 (by decide), lower 4 (by cbv)⟩

end Rollup.Engine
