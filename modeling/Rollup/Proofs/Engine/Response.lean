import Rollup.Proofs.Aggregation.Failures
import Rollup.Proofs.Answer.Shown
import Rollup.Proofs.Engine.Execute
import Rollup.Proofs.Engine.Levels

/-! # Responses

The response to a request has every result under its name, on every level. It has the key and the count
of every bucket too, unless a node below a bucketing one is named like them.
-/

namespace Rollup.Engine

open Answer (Distinct Kept Whole ShowsResults bucketsIn ownNames)

/-- A summary answers a forest, over rows at hand or over those of a source. -/
inductive Answers [Memory] (nodes : List Node) (summary : Summary) : Prop where
  | rows {limits : Limits} {rows : List Row} :
      aggregate limits nodes rows = .ok summary → Answers nodes summary
  | source {source : Source} {limits : Limits} {table : String} {filter : Option Json}
      {cancelled : Bool} :
      (execute source limits ⟨table, filter, nodes⟩ cancelled).answer = some (.ok summary) →
        Answers nodes summary

/-- Results of a level, evaluated of some rows each and resolved. -/
structure Level [Memory] (nodes : List Node) (results : Entries Result) : Prop where
  valid : Forest.validate nodes = .ok ()
  resolved : ∃ limits rowsFor built, Evaluated limits rowsFor nodes built ∧
    resolve nodes built = .ok results

variable {nodes : List Node} {results : Entries Result} {summary : Summary}

theorem Answers.level [Memory] (answers : Answers nodes summary) : Level nodes summary.results := by
  cases answers with
  | rows answered =>
      obtain ⟨valid, built, evaluated, within, resolved, -⟩ := aggregate_eq_ok.mp answered
      exact ⟨valid, _, _, built, evaluated_of_evaluateAll evaluated within, resolved⟩
  | source answered =>
      obtain ⟨valid, -, built, evaluated, resolved⟩ := execute_eq_ok answered
      exact ⟨valid, _, _, built, evaluated, resolved⟩

namespace Level

theorem names [Memory] (level : Level nodes results) : results.map (·.1) = nodes.map (·.name) := by
  obtain ⟨valid, limits, rowsFor, built, evaluated, resolved⟩ := level
  refine names_of_built valid (fun node member plain => ?_) resolved
  have plain : node ∈ nodes.filter fun node => !node.isPipeline :=
    List.mem_filter.mpr ⟨member, by simpa using plain⟩
  obtain ⟨entry, hentry, same, -⟩ := exists_related evaluated.flip plain
  exact List.lookup_isSome_iff.mpr ⟨entry, hentry, by rw [same, beq_self_eq_true]⟩

/-- The results in a bucket are a level again. -/
theorem below [Memory] (level : Level nodes results) {node : Node} (hnode : node ∈ nodes)
    {buckets : List Bucket} {otherCount : Option Nat}
    (member : (node.name, .buckets buckets otherCount) ∈ results) {bucket : Bucket}
    (hbucket : bucket ∈ buckets) : Level node.children bucket.results := by
  obtain ⟨valid, limits, rowsFor, built, evaluated, resolved⟩ := level
  have sound := Site.sound_of_level valid evaluated resolved hnode member
  obtain ⟨-, built, evaluated, within, resolved⟩ := Site.level_of_bucket sound rfl hbucket
  exact ⟨sound.below, _, _, built, evaluated_of_evaluateAll evaluated within, resolved⟩

end Level

/-- The results in a bucket have the names of the nodes below some node of the forest. -/
theorem Level.names_within [Memory] : ∀ (nodes : List Node) {results : Entries Result},
    Level nodes results → ∀ bucket ∈ bucketsIn results, ∃ node, Forest.Holds nodes node ∧
      bucket.results.map (·.1) = node.children.map (·.name) ∧ Distinct bucket
  | nodes, results, level, bucket, member => by
      obtain ⟨name, buckets, otherCount, published, outer, houter, inside⟩ :=
        Answer.exists_of_mem_bucketsIn member
      obtain ⟨node, hnode, rfl⟩ : ∃ node ∈ nodes, node.name = name := by
        have named : name ∈ nodes.map (·.name) :=
          level.names ▸ List.mem_map_of_mem (f := Prod.fst) published
        exact List.mem_map.mp named
      have below := level.below hnode published houter
      rcases inside with rfl | inside
      · refine ⟨node, .top hnode, below.names, ?_⟩
        rw [Distinct, below.names]
        exact Forest.names_of_validate below.valid
      · have shorter : sizeOf node.children < sizeOf nodes := by
          have := List.sizeOf_lt_of_mem hnode
          cases node
          simp at this ⊢
          omega
        obtain ⟨inner, holds, names⟩ := Level.names_within node.children below bucket inside
        exact ⟨inner, .under hnode holds, names⟩
termination_by nodes => sizeOf nodes

/-- The response to a request has the names of the nodes in their order, and each result under its name,
on every level. Of a bucket it has the key, the count and the written form of the key, each unless a
result in the bucket is named like it. So it shows every bucket whole if and only if there is no such
result, as when no node below a bucketing one is so named. -/
theorem response_shows_results [Memory] (answers : Answers nodes summary) :
    let response := Answer.aggregations summary
    response.object?.map (·.map (·.1)) = some (nodes.map (·.name)) ∧
      ShowsResults Kept summary.results response ∧
      (ShowsResults Whole summary.results response ↔
        ∀ bucket ∈ bucketsIn summary.results, ∀ name ∈ ownNames,
          name ∉ bucket.results.map (·.1)) ∧
      ((∀ node, Forest.Holds nodes node → ∀ child ∈ node.children, child.name ∉ ownNames) →
        ShowsResults Whole summary.results response) := by
  intro response
  have level := answers.level
  have names := level.names
  have distinct : (summary.results.map (·.1)).Nodup := names ▸ Forest.names_of_validate level.valid
  have within := Level.names_within nodes level
  have apart : ∀ bucket ∈ bucketsIn summary.results, Distinct bucket := fun bucket member => by
    obtain ⟨-, -, -, distinct⟩ := within bucket member
    exact distinct
  have shows (own : Bucket → Json → Prop) :=
    Answer.showsResults_iff own summary.results response
      (fun _ member => Answer.member?_aggregations distinct member) apart
  have whole : ShowsResults Whole summary.results response ↔
      ∀ bucket ∈ bucketsIn summary.results, ∀ name ∈ ownNames,
        name ∉ bucket.results.map (·.1) := by
    rw [shows]
    exact forall₂_congr fun bucket member => Answer.whole_iff (apart bucket member)
  refine ⟨?_, (shows Kept).mpr fun bucket member => Answer.kept_bucketJson (apart bucket member),
    whole, fun clear => whole.mpr fun bucket member name reserved there => ?_⟩
  · rw [Answer.names_aggregations distinct, names]
  · obtain ⟨node, holds, names, -⟩ := within bucket member
    obtain ⟨child, hchild, rfl⟩ := List.mem_map.mp (names ▸ there)
    exact clear node holds child hchild reserved

/-! ## Cities under the name of a count -/

def countsOfCities : Node :=
  ⟨"country", "terms", .bucketing, some "country", [],
    [⟨"doc_count", "terms", .bucketing, some "city", [], []⟩]⟩

def toLyon : List Row := [[("country", .string "fr"), ("city", .string "lyon")]]

def lyonInFrance : Bucket :=
  ⟨.str "fr", 1, [("doc_count", .buckets [⟨.str "lyon", 1, []⟩] none)]⟩

theorem response_shows_results_toLyon :
    aggregate {} [countsOfCities] toLyon = .ok ⟨1, [("country", .buckets [lyonInFrance] none)]⟩ ∧
      ¬ ShowsResults Whole [("country", .buckets [lyonInFrance] none)]
        (Answer.aggregations ⟨1, [("country", .buckets [lyonInFrance] none)]⟩) := by
  have answered :
      aggregate {} [countsOfCities] toLyon = .ok ⟨1, [("country", .buckets [lyonInFrance] none)]⟩ := by
    cbv
  obtain ⟨-, -, whole, -⟩ := response_shows_results (.rows answered)
  have inside : lyonInFrance ∈ bucketsIn [("country", .buckets [lyonInFrance] none)] := by
    simp [bucketsIn, Answer.bucketsOf, Answer.bucketsWithin, lyonInFrance]
  refine ⟨answered, fun shown => ?_⟩
  exact whole.mp shown lyonInFrance inside "doc_count" (by decide) (by decide)

end Rollup.Engine
