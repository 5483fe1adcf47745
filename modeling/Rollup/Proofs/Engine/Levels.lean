import Rollup.Proofs.Aggregation.Forms
import Rollup.Proofs.Engine.Aggregate

/-! # Levels of an answer

A level of an answer is an answer itself, to the nodes of the level over fewer rows. What holds of
the first level of every answer holds of all of them.
-/

namespace Rollup.Engine

variable {limits : Limits} {nodes : List Node} {rows : List Row} {summary : Summary}

/-- The levels of an answer, each with its nodes: the first one, and those in the buckets of a
level. -/
inductive LevelOf (nodes : List Node) (results : Entries Result) :
    List Node → Entries Result → Prop where
  | top : LevelOf nodes results nodes results
  | bucket {level : List Node} {inner : Entries Result} {node : Node} {buckets : List Bucket}
      {otherCount : Option Nat} {bucket : Bucket} :
      LevelOf nodes results level inner → node ∈ level →
      inner.lookup node.name = some (.buckets buckets otherCount) → bucket ∈ buckets →
      LevelOf nodes results node.children bucket.results

/-- The same levels with the rows that they are over: all of them at the top, and in a bucket those
that are counted under its key. -/
inductive LevelOver (nodes : List Node) (rows : List Row) (results : Entries Result) :
    List Node → List Row → Entries Result → Prop where
  | top : LevelOver nodes rows results nodes rows results
  | bucket {level : List Node} {part : List Row} {inner : Entries Result} {node : Node}
      {buckets : List Bucket} {otherCount : Option Nat} {bucket : Bucket} :
      LevelOver nodes rows results level part inner → node ∈ level →
      inner.lookup node.name = some (.buckets buckets otherCount) → bucket ∈ buckets →
      LevelOver nodes rows results node.children
        (part.filter fun row => node.keyOf? row = some bucket.key) bucket.results

theorem exists_levelOver {level : List Node} {results inner : Entries Result}
    (reached : LevelOf nodes results level inner) (rows : List Row) :
    ∃ part, LevelOver nodes rows results level part inner := by
  induction reached with
  | top => exact ⟨rows, .top⟩
  | bucket _ member found hbucket ih =>
      obtain ⟨part, within⟩ := ih
      exact ⟨_, .bucket within member found hbucket⟩

theorem answer_of_levelOver [Memory] {level : List Node} {part : List Row} {results : Entries Result}
    (answered : aggregate limits nodes rows = .ok summary)
    (reached : LevelOver nodes rows summary.results level part results) :
    ∃ count, aggregate limits level part = .ok ⟨count, results⟩ := by
  induction reached with
  | top => exact ⟨summary.count, answered⟩
  | bucket _ member found hbucket ih =>
      obtain ⟨count, answered⟩ := ih
      have sound := sound_of_aggregate answered member (mem_of_lookup found) .refl
      obtain ⟨-, built, evaluated, within, resolved⟩ := Site.level_of_bucket sound rfl hbucket
      exact ⟨_, aggregate_eq_ok.mpr ⟨sound.below, built, evaluated, within, resolved, rfl⟩⟩

theorem answer_of_level [Memory] (answered : aggregate limits nodes rows = .ok summary)
    {level : List Node} {results : Entries Result}
    (reached : LevelOf nodes summary.results level results) :
    ∃ rows summary, aggregate limits level rows = .ok summary ∧ summary.results = results := by
  obtain ⟨part, within⟩ := exists_levelOver reached rows
  obtain ⟨count, answered⟩ := answer_of_levelOver answered within
  exact ⟨part, ⟨count, results⟩, answered, rfl⟩

/-! ## Published pipelines -/

theorem keys_of_reading {target : Node} {buckets : List Bucket} {otherCount : Option Nat}
    {asked : PathTarget} {input : SiblingValues}
    (reading : Reading target (.buckets buckets otherCount) asked input) :
    ∃ values, input = .sequence values ∧ values.map (·.1) = buckets.map (·.key) := by
  cases reading with
  | counts is asks => exact ⟨_, rfl, by rw [List.map_map]; rfl⟩
  | metric is hchild named metric each =>
      exact ⟨_, rfl, map_eq_of_related each fun bucket entry related => related.1⟩

/-- A pipeline's result is what it computes of what its path reads off the result of a sibling. -/
structure Follows [Memory] (level : List Node) (results : Entries Result) (node target : Node)
    (pipeline : Pipeline) (sibling result : Result) : Prop where
  named : Method.ofName? node.typeName = some (.pipeline pipeline)
  member : target ∈ level
  declared : target.isPipeline → DeclaredBefore level target node
  found : results.lookup target.name = some sibling
  computed : ∃ path input, BucketsPath.ofNode node = .ok path ∧ path.sibling = target.name ∧
    Reading target sibling path.target input ∧ pipeline.compute node input = .ok result
  published : results.lookup node.name = some result
  /-- A parallel pipeline has the keys of the buckets that it reads, in their order. -/
  keys : pipeline.isParallel → ∀ buckets otherCount, sibling = .buckets buckets otherCount →
    ∃ series, result = .series series ∧ series.map (·.1) = buckets.map (·.key)

/-- Published pipelines follow from published siblings, on every level of an answer. Rows that are
folded away are in no bucket, so that nothing of them is read. -/
theorem pipeline_follows [Memory] (answered : aggregate limits nodes rows = .ok summary)
    {level : List Node} {results : Entries Result}
    (reached : LevelOf nodes summary.results level results) {node : Node} (member : node ∈ level)
    (is : node.isPipeline) :
    ∃ target pipeline sibling result, Follows level results node target pipeline sibling result := by
  obtain ⟨rows, summary, answered, rfl⟩ := answer_of_level answered reached
  obtain ⟨valid, built, evaluated, -, resolved, -⟩ := aggregate_eq_ok.mp answered
  obtain ⟨result, found, published⟩ := published_of_resolve valid evaluated resolved member
  cases published with
  | built plain => exact absurd is plain
  | @computed target pipeline path sibling input _ named promised hsibling reading computed =>
      refine ⟨target, pipeline, sibling, result, named, promised.reads.member, promised.declared,
        hsibling, ⟨path, input, promised.reads.asked, promised.reads.name.symm, reading, computed⟩,
        found, ?_⟩
      rintro parallel buckets otherCount rfl
      obtain ⟨values, rfl, keys⟩ := keys_of_reading reading
      obtain ⟨series, same, keys'⟩ := Pipeline.keys_of_compute parallel computed
      exact ⟨series, same, keys'.trans keys⟩

/-! ## Trips to the most visited city -/

def mostVisited : Node :=
  ⟨"cities", "terms", .bucketing, some "city", [("size", .number (.int 1))], []⟩

def visited : Node :=
  ⟨"visited", "cumulative_sum", .pipeline, none, [("buckets_path", .string "cities")], []⟩

def busiest : Node :=
  ⟨"busiest", "max_bucket", .pipeline, none, [("buckets_path", .string "visited")], []⟩

def regions : Node :=
  ⟨"regions", "terms", .bucketing, some "region", [], [mostVisited, visited, busiest]⟩

def trips : List Row :=
  [[("region", .string "fr"), ("city", .string "lyon")],
   [("region", .string "fr"), ("city", .string "nice")],
   [("region", .string "fr"), ("city", .string "lyon")]]

def citiesVisited : Result := .buckets [⟨.str "lyon", 2, []⟩] (some 1)

def tripsToFrance : Entries Result :=
  [("cities", citiesVisited), ("visited", .series [(.str "lyon", some 2.0)]),
   ("busiest", .value (.single (some 2.0)))]

def france : Bucket := ⟨.str "fr", 3, tripsToFrance⟩

def tripsByRegion : Summary :=
  { count := 3, results := [("regions", .buckets [france] none)] }

theorem aggregate_trips : aggregate {} [regions] trips = .ok tripsByRegion := by
  refine aggregate_eq_ok.mpr ⟨by cbv, ?_⟩
  refine ⟨[("regions", .buckets [⟨.str "fr", 3, [("cities", citiesVisited)]⟩] none)], ?_⟩
  exact ⟨by cbv, by cbv, rfl, rfl⟩

theorem levelOf_trips : LevelOf [regions] tripsByRegion.results regions.children tripsToFrance :=
  .bucket .top (List.mem_singleton_self regions) rfl (List.mem_singleton_self france)

theorem pipeline_follows_trips :
    ∃ target pipeline sibling result,
      Follows regions.children tripsToFrance visited target pipeline sibling result :=
  pipeline_follows aggregate_trips levelOf_trips (by simp [regions]) rfl

/-! ## Forms of results -/

/-- An answer mirrors the request. On every level the results have the names of the nodes, each once
and in order, and each has the form that the method of its node calls for. -/
theorem level_mirrors_nodes [Memory] (answered : aggregate limits nodes rows = .ok summary)
    {level : List Node} {results : Entries Result}
    (reached : LevelOf nodes summary.results level results) :
    results.map (·.1) = level.map (·.name) ∧ (level.map (·.name)).Nodup ∧
      ∀ node ∈ level, ∃ method result, Method.ofName? node.typeName = some method ∧
        method.kind = node.kind ∧ results.lookup node.name = some result ∧
        HasForm level node result method := by
  obtain ⟨rows, summary, answered, rfl⟩ := answer_of_level answered reached
  obtain ⟨valid, built, evaluated, -, resolved, -⟩ := aggregate_eq_ok.mp answered
  refine ⟨names_of_resolve valid evaluated resolved, Forest.names_of_validate valid, ?_⟩
  intro node member
  obtain ⟨method, checked⟩ := Forest.checked_of_validate valid node member
  have published {node : Node} (member : node ∈ level) :=
    published_of_resolve valid evaluated resolved member
  obtain ⟨result, found, -⟩ := published member
  refine ⟨method, result, checked.named, checked.kind, found, ?_⟩
  exact form_of_level valid (fun _ => published) member checked found

theorem level_mirrors_nodes_trips :
    tripsToFrance.map (·.1) = regions.children.map (·.name) ∧
      (regions.children.map (·.name)).Nodup ∧
      ∀ node ∈ regions.children, ∃ method result, Method.ofName? node.typeName = some method ∧
        method.kind = node.kind ∧ tripsToFrance.lookup node.name = some result ∧
        HasForm regions.children node result method :=
  level_mirrors_nodes aggregate_trips levelOf_trips

end Rollup.Engine
