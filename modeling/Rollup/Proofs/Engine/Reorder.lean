import Rollup.Proofs.Aggregation.Acceptance
import Rollup.Proofs.Aggregation.Reorder
import Rollup.Proofs.Engine.Aggregate

/-! # The order of rows

An answer over rows does not depend on their order, as long as no metric adds numbers up or chooses
between equal ones.
-/

namespace Rollup.Engine

variable {limits : Limits} {nodes : List Node}

/-- The metrics that count values or sort them, by name. -/
theorem unordered_of_names
    (counts : ∀ node, Forest.Holds nodes node → node.kind = .metric →
      node.typeName ∈ ["value_count", "cardinality", "percentiles"])
    (valid : Forest.validate nodes = .ok ()) : Forest.Unordered nodes := by
  intro node holds metric named
  have kind : node.kind = .metric := by
    obtain ⟨method, checked⟩ := Forest.checked_of_holds holds valid
    cases checked.named.symm.trans named
    exact checked.kind.symm
  have asked := counts node holds kind
  simp only [List.mem_cons, List.not_mem_nil, or_false] at asked
  rcases asked with asked | asked | asked <;>
  · rw [asked] at named
    cases named
    simp

/-- Rows in another order give the same answer. -/
theorem aggregate_perm [Memory]
    (counts : ∀ node, Forest.Holds nodes node → node.kind = .metric →
      node.typeName ∈ ["value_count", "cardinality", "percentiles"])
    {rows rows' : List Row} (perm : rows.Perm rows') (summary : Summary) :
    aggregate limits nodes rows = .ok summary ↔ aggregate limits nodes rows' = .ok summary := by
  have goes {rows rows' : List Row} (perm : rows.Perm rows')
      (answered : aggregate limits nodes rows = .ok summary) :
      aggregate limits nodes rows' = .ok summary := by
    obtain ⟨valid, built, evaluated, within, resolved, count⟩ := aggregate_eq_ok.mp answered
    have unordered := unordered_of_names counts valid
    have evaluated' := evaluateAll_perm limits nodes rows rows' built perm
      (Forest.below_of_validate valid) unordered evaluated
    exact aggregate_eq_ok.mpr ⟨valid, built, evaluated', within, resolved, count.trans perm.length_eq⟩
  exact ⟨goes perm, goes perm.symm⟩

/-! ## Visits with the number of cities -/

def cities : Node := ⟨"cities", "cardinality", .metric, some "city", [], []⟩

def visitsAndCities : Entries Result :=
  visitsByCountry.results ++ [("cities", .value (.single (some (Binary64.ofInt 2))))]

theorem aggregate_perm_visits :
    (∀ node, Forest.Holds [country, cities] node → node.kind = .metric →
        node.typeName ∈ ["value_count", "cardinality", "percentiles"]) ∧
      visits.Perm visits.reverse ∧
      aggregate {} [country, cities] visits.reverse = .ok ⟨3, visitsAndCities⟩ := by
  have counts : ∀ node, Forest.Holds [country, cities] node → node.kind = .metric →
      node.typeName ∈ ["value_count", "cardinality", "percentiles"] := by
    intro node holds is
    simp only [Forest.holds_cons, Forest.not_holds_nil, country, city, cities, or_false] at holds
    rcases holds with rfl | rfl | rfl
    · cases is
    · cases is
    · decide
  have perm : visits.Perm visits.reverse := (List.reverse_perm visits).symm
  have byCountry : evaluate {} visits country = .ok (visitsByCountry.results.lookup "country").get! := by
    cbv
  have evaluated : evaluateAll {} visits [country, cities] = .ok visitsAndCities := by
    rw [evaluateAll_eq, mapM_eq_ok]
    exact .cons (bind_eq_ok.mpr ⟨_, byCountry, rfl⟩) (.cons rfl .nil)
  have answered : aggregate {} [country, cities] visits = .ok ⟨3, visitsAndCities⟩ :=
    aggregate_eq_ok.mpr ⟨rfl, visitsAndCities, evaluated, by decide, rfl, rfl⟩
  exact ⟨counts, perm, (aggregate_perm counts perm _).mp answered⟩

end Rollup.Engine
