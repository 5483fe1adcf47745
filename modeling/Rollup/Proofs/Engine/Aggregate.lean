import Rollup.Engine
import Rollup.Proofs.Aggregation.Site

/-! # Answers over rows at hand

An answer over rows is the evaluated forest, resolved. In a bucket stands the answer to the forest
below its node over the rows of the bucket.
-/

namespace Rollup.Engine

variable {limits : Limits} {nodes : List Node} {rows : List Row} {summary : Summary}

theorem aggregate_eq_ok [Memory] : aggregate limits nodes rows = .ok summary ↔
    Forest.validate nodes = .ok () ∧ ∃ built, evaluateAll limits rows nodes = .ok built ∧
      bucketCountOf built ≤ limits.buckets ∧ resolve nodes built = .ok summary.results ∧
      summary.count = rows.length := by
  rw [aggregate, check_eq_ok]
  refine and_congr_right fun valid => ?_
  have costs := buildAll_costs limits nodes (.all rows.toArray) []
    (Forest.below_of_validate valid) (fun _ _ _ hit => by cases hit)
  rw [RowSet.toList_all] at costs
  obtain ⟨count, results⟩ := summary
  rw [bind_eq_ok]
  constructor
  · rintro ⟨⟨built, created⟩, ran, finished⟩
    obtain ⟨evaluated, rfl, within⟩ := (costs 0 (Nat.zero_le _) _ _).mp ran
    obtain ⟨resolved, done, ⟨⟩⟩ := bind_eq_ok.mp finished
    exact ⟨built, evaluated, by omega, done, rfl⟩
  · rintro ⟨built, evaluated, within, resolved, rfl⟩
    refine ⟨(built, bucketCountOf built), ?_, bind_eq_ok.mpr ⟨results, resolved, rfl⟩⟩
    exact (costs 0 (Nat.zero_le _) _ _).mpr ⟨evaluated, (Nat.zero_add _).symm, within⟩

/-- The results of an answer are sound, at every depth. -/
theorem sound_of_aggregate [Memory] (answered : aggregate limits nodes rows = .ok summary)
    {node : Node} (hnode : node ∈ nodes) {result : Result}
    (member : (node.name, result) ∈ summary.results) {site : Site}
    (path : Relation.ReflTransGen Site.Below ⟨node, rows, summary.count, result⟩ site) :
    site.Sound limits := by
  obtain ⟨valid, built, evaluated, within, resolved, count⟩ := aggregate_eq_ok.mp answered
  refine Site.sound_of_path ?_ path
  rw [count]
  exact Site.sound_of_level valid (evaluated_of_evaluateAll evaluated within) resolved hnode member

/-- Nested building is flat building on the rows of the bucket: wherever a bucket stands in an
answer, it counts the rows of its scope that have its key, and its results are the answer to the
forest below its node over these rows. -/
theorem bucket_answers_its_rows [Memory] (answered : aggregate limits nodes rows = .ok summary)
    {node : Node} (hnode : node ∈ nodes) {result : Result}
    (member : (node.name, result) ∈ summary.results) {site : Site}
    (path : Relation.ReflTransGen Site.Below ⟨node, rows, summary.count, result⟩ site)
    {buckets : List Bucket} {otherCount : Option Nat}
    (is : site.result = .buckets buckets otherCount) {bucket : Bucket}
    (hbucket : bucket ∈ buckets) :
    bucket.count = (site.rowsOf bucket.key).length ∧
      aggregate limits site.node.children (site.rowsOf bucket.key) =
        .ok { count := bucket.count, results := bucket.results } := by
  have sound := sound_of_aggregate answered hnode member path
  obtain ⟨count, built, evaluated, within, resolved⟩ := Site.level_of_bucket sound is hbucket
  exact ⟨count, aggregate_eq_ok.mpr ⟨sound.below, built, evaluated, within, resolved, count⟩⟩

/-! ## Visits by country and city -/

def city : Node := ⟨"city", "terms", .bucketing, some "city", [], []⟩

def country : Node := ⟨"country", "terms", .bucketing, some "country", [], [city]⟩

def visits : List Row :=
  [[("country", .string "fr"), ("city", .string "lyon")],
   [("country", .string "it"), ("city", .null)],
   [("country", .string "fr"), ("city", .string "nice")]]

def toFrance : List Row := visits.filter fun row => country.keyOf? row = some (.str "fr")

def toNice : List Row := toFrance.filter fun row => city.keyOf? row = some (.str "nice")

def citiesOfFrance : Result := .buckets [⟨.str "lyon", 1, []⟩, ⟨.str "nice", 1, []⟩] none

def visitsByCountry : Summary :=
  { count := 3
    results := [("country", .buckets
      [⟨.str "fr", 2, [("city", citiesOfFrance)]⟩,
       ⟨.str "it", 1, [("city", .buckets [⟨.missing, 1, []⟩] none)]⟩] none)] }

theorem bucket_answers_its_rows_visits :
    aggregate {} [country] visits = .ok visitsByCountry ∧
      (2 = toFrance.length ∧
        aggregate {} [city] toFrance = .ok { count := 2, results := [("city", citiesOfFrance)] }) ∧
      1 = toNice.length ∧ aggregate {} [] toNice = .ok { count := 1, results := [] } := by
  have answered : aggregate {} [country] visits = .ok visitsByCountry := by cbv
  have root := List.mem_singleton_self country
  have result := List.mem_singleton_self ("country", (visitsByCountry.results.lookup "country").getD default)
  refine ⟨answered, ?_, ?_⟩
  · exact bucket_answers_its_rows answered root result .refl rfl List.mem_cons_self
  · exact bucket_answers_its_rows answered root result
      (.single (.bucket rfl List.mem_cons_self (List.mem_singleton_self _)
        (List.mem_singleton_self _))) (rfl : citiesOfFrance = _)
      (List.mem_cons_of_mem _ (List.mem_singleton_self _))

end Rollup.Engine
