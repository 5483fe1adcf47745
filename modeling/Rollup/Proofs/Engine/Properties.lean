import Rollup.Proofs.Aggregation.Properties
import Rollup.Proofs.Engine.Levels

/-! # Properties that are read

Orders and paths read properties of metrics, level by level. What they read was computed of known
rows, and of a number among them they get one back, unless they ask for a percent that was not
computed.
-/

namespace Rollup.Engine

/-- On a level, an order or a path reads a number of a metric that is computed of certain rows. -/
inductive ReadOn (limits : Limits) (level : List Node) (rows : List Row) (results : Entries Result) :
    Node → List Row → Option String → Option Float → Prop where
  /-- A clause of an order reads a metric child for every candidate, one that is cut off included. -/
  | order {node child : Node} {method : Bucketing} {order : BucketOrder} {grouping : Grouping Row}
      {candidates : List (Candidate Row)} {candidate : Candidate Row} {clause : OrderClause}
      {path : PropertyPath} :
      node ∈ level → Method.ofName? node.typeName = some (.bucketing method) →
      BucketOrder.ofNode? node = .ok (some order) →
      method.groupRows node limits rows = .ok grouping →
      order.metricChildren.foldlM (Selection.measureAll Metric.ofRows node)
        (grouping.groups.map .ofGroup) = .ok candidates →
      candidate ∈ candidates → clause ∈ order → clause.target = .metric path →
      node.child? path.name = some child →
      ReadOn limits level rows results child candidate.ids path.property (candidate.number? path)
  /-- A path reads a metric in every bucket of a sibling. -/
  | inside {node target child : Node} {path : BucketsPath} {inner : PropertyPath}
      {buckets : List Bucket} {otherCount : Option Nat} {bucket : Bucket} :
      node ∈ level → node.isPipeline → Forest.Reads level node target path →
      path.target = .metric inner →
      results.lookup target.name = some (.buckets buckets otherCount) → bucket ∈ buckets →
      target.child? inner.name = some child →
      ReadOn limits level rows results child
        (rows.filter fun row => target.keyOf? row = some bucket.key) inner.property
        (do (← (← bucket.results.lookup inner.name).value?).property? inner.property)
  /-- A path reads a sibling that is a metric. -/
  | beside {node target : Node} {path : BucketsPath} {property : Option String} {value : Value} :
      node ∈ level → node.isPipeline → Forest.Reads level node target path → target.kind = .metric →
      path.target = .itself property → results.lookup target.name = some (.value value) →
      ReadOn limits level rows results target rows property (value.property? property)

variable {limits : Limits} {nodes level : List Node} {rows part : List Row} {summary : Summary}
  {results : Entries Result} {node : Node} {property : Option String} {number : Option Float}

/-- A metric is published as it is computed of the rows of its level. -/
theorem metric_of_answer [Memory] {count : Nat}
    (answered : aggregate limits level rows = .ok ⟨count, results⟩)
    (member : node ∈ level) {metric : Metric}
    (named : Method.ofName? node.typeName = some (.metric metric)) :
    ∃ value, metric.ofRows node rows = .ok value ∧
      results.lookup node.name = some (.value value) := by
  obtain ⟨valid, built, evaluated, -, resolved, -⟩ := aggregate_eq_ok.mp answered
  obtain ⟨method, checked⟩ := Forest.checked_of_validate valid node member
  have is : node.kind = .metric := by
    cases checked.named.symm.trans named
    exact checked.kind.symm
  obtain ⟨value, found, published⟩ := value_of_resolve valid evaluated resolved member is
  obtain ⟨result, found', computed⟩ := lookup_evaluateAll (Forest.names_of_validate valid) evaluated
    member (by simp [Node.isPipeline, is])
  cases found.symm.trans found'
  obtain ⟨_, computed, ⟨⟩⟩ := (evaluate_metric_iff named).mp computed
  exact ⟨value, computed, published⟩

/-- What is read is a property of the value that a metric has of its rows, and the property has passed
the check. -/
theorem computed_of_readOn [Memory] {count : Nat}
    (answered : aggregate limits level rows = .ok ⟨count, results⟩)
    (read : ReadOn limits level rows results node part property number) :
    ∃ metric value, Method.ofName? node.typeName = some (.metric metric) ∧
      metric.ofRows node part = .ok value ∧ number = value.property? property ∧
      metric.shape.checkProperty property = .ok () := by
  obtain ⟨valid, -⟩ := aggregate_eq_ok.mp answered
  cases read with
  | order member named asked grouped measured hcandidate hclause reads found =>
      obtain ⟨method, checked⟩ := Forest.checked_of_validate valid _ member
      cases checked.named.symm.trans named
      exact number_of_measured (Forest.below_of_validate valid _ member)
        (checked.order checked.kind.symm) asked measured hcandidate hclause reads found
  | @inside pipeline target _ path inner _ _ bucket member is reads asks found hbucket child =>
      obtain ⟨shape, shaped, checks⟩ := (checks_of_path valid member is reads).1 inner asks
      have below := Forest.below_of_validate valid target reads.member
      obtain ⟨metric, named, rfl⟩ :=
        named_of_metricShape? (Forest.checked_of_validate below) shaped child
      obtain ⟨count, inside⟩ :=
        answer_of_levelOver answered (.bucket .top reads.member found hbucket)
      obtain ⟨hchild, same⟩ := Node.mem_of_child? child
      obtain ⟨value, computed, published⟩ := metric_of_answer inside hchild named
      refine ⟨metric, value, named, computed, ?_, checks⟩
      rw [← same, published]
      rfl
  | beside member is reads kind asks found =>
      obtain ⟨method, known, checks⟩ :=
        (checks_of_path valid member is reads).2 _ asks (by rw [kind]; nofun)
      obtain ⟨own, checked⟩ := Forest.checked_of_validate valid _ reads.member
      have named := Method.find_eq_ok.mp known
      cases checked.named.symm.trans named
      cases method with
      | metric metric =>
          obtain ⟨value, computed, published⟩ := metric_of_answer answered reads.member named
          cases found.symm.trans published
          exact ⟨metric, _, named, computed, rfl, checks⟩
      | _ => cases checked.kind.trans kind

/-- A property that is read of a metric is a number wherever the metric was computed of one, on every
level of an answer, for candidates that are cut off and in buckets that are kept. The exception are
percentiles: of these a number is read exactly if the property is one of the percents that the node
asks for, though any percent passes validation. -/
theorem reads_number [Memory] (answered : aggregate limits nodes rows = .ok summary)
    {levelRows : List Row}
    (reached : LevelOver nodes rows summary.results level levelRows results)
    (read : ReadOn limits level levelRows results node part property number) :
    ∃ metric value, Method.ofName? node.typeName = some (.metric metric) ∧
      metric.ofRows node part = .ok value ∧ number = value.property? property ∧
      (node.Numeric part → (number.isSome ↔ (metric = .percentiles → node.AsksPercent property))) := by
  obtain ⟨count, answered⟩ := answer_of_levelOver answered reached
  obtain ⟨metric, value, named, computed, rfl, checks⟩ := computed_of_readOn answered read
  exact ⟨metric, value, named, computed, rfl, isSome_property_of_compute computed checks⟩

/-! ## A percent that is not computed -/

def speeds : Node :=
  ⟨"speeds", "percentiles", .metric, some "speed", [("percents", .array [.number (.int 50)])], []⟩

def fast : Node :=
  ⟨"fast", "max_bucket", .pipeline, none, [("buckets_path", .string "speeds.90")], []⟩

def drives : List Row := [[("speed", .number (.int 70))]]

def driven : Value := .percentiles [(50.0, some 70.0)]

def drivesBySpeed : Summary :=
  { count := 1, results := [("speeds", .value driven), ("fast", .value (.single none))] }

theorem compute_speeds : Metric.percentiles.ofRows speeds drives = .ok driven := by decide +kernel

theorem unread_fast : driven.property? (some "90") = none := by decide +kernel

theorem aggregate_drives : aggregate {} [speeds, fast] drives = .ok drivesBySpeed := by
  have computed : Method.ofName? speeds.typeName = some (.metric .percentiles) := rfl
  have evaluated : evaluateAll {} drives [speeds, fast] = .ok [("speeds", .value driven)] := by
    have plain : [speeds, fast].filter (fun node => !node.isPipeline) = [speeds] := rfl
    rw [evaluateAll_eq, plain, List.mapM_cons,
      (evaluate_metric_iff computed).mpr ⟨driven, compute_speeds, rfl⟩]
    rfl
  have read : siblingValues fast ⟨"speeds", .itself (some "90")⟩ [("speeds", .value driven)] =
      .ok (.scalar none) := by
    rw [← unread_fast]
    rfl
  have resolved : resolve [speeds, fast] [("speeds", .value driven)] = .ok drivesBySpeed.results := by
    have piped : resolvePipelines [speeds, fast] [("speeds", .value driven)] =
        .ok drivesBySpeed.results := by
      have pipelines : [speeds, fast].filter Node.isPipeline = [fast] := rfl
      rw [resolvePipelines, pipelines, List.foldlM_cons,
        Forest.resolvePipeline_of_compute rfl rfl read rfl]
      rfl
    rw [resolve, piped]
    rfl
  exact aggregate_eq_ok.mpr ⟨by decide +kernel, _, evaluated, by decide, resolved, rfl⟩

/-- The percent 90 is asked for, but 50 is what is computed. -/
theorem reads_number_fast : speeds.Numeric drives ∧ driven.property? (some "90") = none ∧
    ¬ speeds.AsksPercent (some "90") := by
  have numeric : speeds.Numeric drives := ⟨"speed", rfl, _, List.mem_singleton_self _, _, rfl⟩
  have reads : Forest.Reads [speeds, fast] fast speeds ⟨"speeds", .itself (some "90")⟩ :=
    ⟨rfl, by simp, rfl⟩
  obtain ⟨metric, value, named, -, -, isSome⟩ :=
    reads_number aggregate_drives .top (.beside (by simp) rfl reads rfl rfl rfl)
  refine ⟨numeric, unread_fast, fun asks => ?_⟩
  have some := (isSome numeric).mpr fun _ => asks
  rw [unread_fast] at some
  cases some

end Rollup.Engine
