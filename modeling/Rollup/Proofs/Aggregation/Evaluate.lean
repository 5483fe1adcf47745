import Rollup.Proofs.Aggregation.Budget
import Rollup.Proofs.Aggregation.Cut

/-! # Evaluating nodes

Building draws on a budget, works on row sets and reuses metrics. None of this shows in what is
built: it is the value of the node over the rows that the row set stands for, and the buckets that
were paid for are the buckets in it.
-/

namespace Rollup

/-! ## Counting buckets -/

mutual

/-- How many buckets a result has, at all levels. -/
def Result.bucketCount : Result → Nat
  | .buckets buckets _ => bucketCountBelow buckets
  | .value _ => 0
  | .series _ => 0

def bucketCountBelow : List Bucket → Nat
  | [] => 0
  | ⟨_, _, results⟩ :: buckets => 1 + bucketCountOf results + bucketCountBelow buckets

/-- How many buckets the results of a level have. -/
def bucketCountOf : List (String × Result) → Nat
  | [] => 0
  | (_, result) :: results => result.bucketCount + bucketCountOf results

end

theorem bucketCountBelow_eq (buckets : List Bucket) :
    bucketCountBelow buckets =
      buckets.length + (buckets.map fun bucket => bucketCountOf bucket.results).sum := by
  induction buckets with
  | nil => rfl
  | cons bucket buckets ih =>
      obtain ⟨key, count, results⟩ := bucket
      simp only [bucketCountBelow, ih, List.length_cons, List.map_cons, List.sum_cons]
      omega

/-! ## The value of a node -/

mutual

/-- The value of a node over some rows; a pipeline has none. -/
def evaluate (limits : Limits) (rows : List Row) : Node → Except Error Result
  | ⟨name, typeName, kind, field, params, children⟩ => do
      let node : Node := ⟨name, typeName, kind, field, params, children⟩
      match ← Method.find typeName none with
      | .metric metric => return .value (← metric.ofRows node rows)
      | .pipeline _ => throw (.invalidAggregation name .notBuiltFromRows)
      | .bucketing method => do
          let (candidates, otherCount) ← selectRows limits method node rows
          let buckets ← candidates.mapM fun c => do
            let results ← evaluateAll limits c.ids children
            return { key := c.key, count := c.count, results }
          return .buckets buckets otherCount

/-- The values of the nodes of a level, pipelines left out. -/
def evaluateAll (limits : Limits) (rows : List Row) : List Node → Except Error (Entries Result)
  | [] => return []
  | node :: nodes => do
      if node.isPipeline then evaluateAll limits rows nodes
      else
        let result ← evaluate limits rows node
        return (node.name, result) :: (← evaluateAll limits rows nodes)

end

theorem evaluate_metric_iff {limits : Limits} {rows : List Row} {node : Node} {metric : Metric}
    {result : Result} (is : Method.ofName? node.typeName = some (.metric metric)) :
    evaluate limits rows node = .ok result ↔
      ∃ value, metric.ofRows node rows = .ok value ∧ result = .value value := by
  obtain ⟨name, typeName, kind, field, params, children⟩ := node
  rw [evaluate, Method.find_eq_ok.mpr is]
  show (metric.ofRows _ rows >>= _) = _ ↔ _
  refine bind_eq_ok.trans (exists_congr fun value => and_congr_right fun _ => ?_)
  constructor
  · rintro ⟨⟩
    rfl
  · rintro rfl
    rfl

/-- A node evaluates to buckets if it is a bucketing node, and it has one bucket for each group that
is kept. -/
theorem evaluate_buckets_iff {limits : Limits} {rows : List Row} {node : Node}
    {buckets : List Bucket} {otherCount : Option Nat} :
    evaluate limits rows node = .ok (.buckets buckets otherCount) ↔
      ∃ method kept, Method.ofName? node.typeName = some (.bucketing method) ∧
        selectRows limits method node rows = .ok (kept, otherCount) ∧
        List.Forall₂ (fun candidate bucket => bucket.key = candidate.key ∧
          bucket.count = candidate.count ∧
          evaluateAll limits candidate.ids node.children = .ok bucket.results) kept buckets := by
  obtain ⟨name, typeName, kind, field, params, children⟩ := node
  have made (candidate : Candidate Row) (bucket : Bucket) :
      (do
        let results ← evaluateAll limits candidate.ids children
        return ({ key := candidate.key, count := candidate.count, results } : Bucket)) =
          .ok bucket ↔
        bucket.key = candidate.key ∧ bucket.count = candidate.count ∧
          evaluateAll limits candidate.ids children = .ok bucket.results := by
    obtain ⟨key, count, results⟩ := bucket
    rw [bind_eq_ok]
    constructor
    · rintro ⟨results, evaluated, ⟨⟩⟩
      exact ⟨rfl, rfl, evaluated⟩
    · rintro ⟨⟨⟩, ⟨⟩, evaluated⟩
      exact ⟨results, evaluated, rfl⟩
  rw [evaluate, bind_eq_ok]
  simp only [Method.find_eq_ok, ← made, ← mapM_eq_ok]
  constructor
  · rintro ⟨method, named, h⟩
    cases method with
    | metric metric => obtain ⟨value, -, ⟨⟩⟩ := bind_eq_ok.mp h
    | pipeline pipeline => cases h
    | bucketing method =>
        obtain ⟨⟨kept, other⟩, selected, h⟩ := bind_eq_ok.mp h
        obtain ⟨buckets, each, ⟨⟩⟩ := bind_eq_ok.mp h
        exact ⟨method, kept, named, selected, each⟩
  · rintro ⟨method, kept, named, selected, each⟩
    exact ⟨.bucketing method, named, bind_eq_ok.mpr ⟨_, selected, bind_eq_ok.mpr ⟨_, each, rfl⟩⟩⟩

/-- A node that is built is no pipeline, and what it evaluates to is of its kind. -/
theorem result_of_evaluate {limits : Limits} {rows : List Row} {node : Node} {result : Result}
    {method : Method} (named : Method.ofName? node.typeName = some method)
    (h : evaluate limits rows node = .ok result) :
    (method.kind = .bucketing ∧ ∃ buckets otherCount, result = .buckets buckets otherCount) ∨
      method.kind = .metric ∧ ∃ value, result = .value value := by
  cases method with
  | metric metric =>
      obtain ⟨value, -, rfl⟩ := (evaluate_metric_iff named).mp h
      exact .inr ⟨rfl, value, rfl⟩
  | pipeline pipeline =>
      obtain ⟨name, typeName, kind, field, params, children⟩ := node
      rw [evaluate, Method.find_eq_ok.mpr named] at h
      cases h
  | bucketing method =>
      obtain ⟨name, typeName, kind, field, params, children⟩ := node
      rw [evaluate, Method.find_eq_ok.mpr named] at h
      change selectRows limits method _ rows >>= _ = _ at h
      obtain ⟨selected, -, h⟩ := bind_eq_ok.mp h
      obtain ⟨buckets, -, ⟨⟩⟩ := bind_eq_ok.mp h
      exact .inl ⟨rfl, buckets, selected.2, rfl⟩

theorem evaluateAll_eq (limits : Limits) (rows : List Row) (nodes : List Node) :
    evaluateAll limits rows nodes =
      (nodes.filter fun node => !node.isPipeline).mapM fun node => do
        return (node.name, ← evaluate limits rows node) := by
  induction nodes with
  | nil => rfl
  | cons node nodes ih =>
      rw [evaluateAll]
      by_cases is : node.isPipeline
      · simp [is, ih]
      · simp [is, ih, List.mapM_cons]

/-- Each node of an evaluated level has its own result under its name. -/
theorem lookup_evaluateAll {limits : Limits} {rows : List Row} {nodes : List Node}
    {results : Entries Result} (distinct : (nodes.map (·.name)).Nodup)
    (h : evaluateAll limits rows nodes = .ok results) {node : Node} (member : node ∈ nodes)
    (plain : ¬ node.isPipeline) :
    ∃ result, results.lookup node.name = some result ∧ evaluate limits rows node = .ok result := by
  rw [evaluateAll_eq] at h
  have names : results.map (·.1) = (nodes.filter fun node => !node.isPipeline).map (·.name) := by
    refine map_eq_of_related (mapM_eq_ok.mp h) fun node entry computed => ?_
    obtain ⟨result, -, ⟨⟩⟩ := bind_eq_ok.mp computed
    rfl
  obtain ⟨entry, hentry, computed⟩ := exists_result h (List.mem_filter.mpr ⟨member, by simp [plain]⟩)
  obtain ⟨result, evaluated, ⟨⟩⟩ := bind_eq_ok.mp computed
  refine ⟨result, lookup_of_mem ?_ hentry, evaluated⟩
  rw [names]
  exact distinct.sublist (List.filter_sublist.map _)

section Level

variable {limits : Limits} {node : Node} {set : RowSet}

/-- The metrics that are known of some rows are what the nodes evaluate to. -/
def Known (limits : Limits) (rows : List Row) (metrics : Entries Value) (nodes : List Node) : Prop :=
  ∀ node ∈ nodes, ∀ value, metrics.lookup node.name = some value →
    evaluate limits rows node = .ok (.value value)

theorem childrenKnown_of_validate (valid : Forest.validate node.children = .ok ()) :
    node.ChildrenKnown := fun child member => by
  obtain ⟨method, checked⟩ := Forest.checked_of_validate valid child member
  rw [checked.named]
  rfl

theorem known_of_selectRows {method : Bucketing} {rows : List Row} {kept : List (Candidate Row)}
    {other : Option Nat} (valid : Forest.validate node.children = .ok ())
    (h : selectRows limits method node rows = .ok (kept, other)) {candidate : Candidate Row}
    (member : candidate ∈ kept) : Known limits candidate.ids candidate.metrics node.children := by
  intro child hchild value hit
  obtain ⟨metric, other, found, computed⟩ :=
    metrics_of_selectRows (childrenKnown_of_validate valid) h member hit
  obtain ⟨hother, is⟩ := Node.of_metricChild? found
  have same : other = child := Forest.eq_of_name valid hother.1 hchild hother.2
  subst same
  exact (evaluate_metric_iff is).mpr ⟨value, computed, rfl⟩

/-- Building buckets is evaluating them, if it is so one level below. -/
theorem buckets_costs {method : Bucketing} (valid : Forest.validate node.children = .ok ())
    (below : ∀ (part : RowSet) (metrics : Entries Value),
      Known limits part.toList metrics node.children →
        Costs limits.buckets (buildAll limits part metrics node.children)
          (evaluateAll limits part.toList node.children) bucketCountOf) :
    Costs limits.buckets
      (do
        let (candidates, otherCount) ← selectBuckets limits method node set
        reserve limits candidates.length
        let buckets ← candidates.mapM fun c => do
          let results ← buildAll limits (set.select c.ids) c.metrics node.children
          return { key := c.key, count := c.count, results }
        return .buckets buckets otherCount)
      (do
        let (candidates, otherCount) ← selectRows limits method node set.toList
        let buckets ← candidates.mapM fun c => do
          let results ← evaluateAll limits c.ids node.children
          return { key := c.key, count := c.count, results }
        return .buckets buckets otherCount) Result.bucketCount := by
  have selected := selectRows_toList limits method node set
  rw [selected, bind_map_left]
  refine .free fun ⟨candidates, otherCount⟩ chosen => ?_
  rw [chosen] at selected
  simp only [Prod.map, List.mapM_map]
  have each : ∀ c ∈ candidates, Costs limits.buckets
      (do
        let results ← buildAll limits (set.select c.ids) c.metrics node.children
        return ({ key := c.key, count := c.count, results } : Bucket))
      (do
        let results ← evaluateAll limits (c.map set.row).ids node.children
        return ({ key := c.key, count := (c.map set.row).count, results } : Bucket))
      fun bucket => bucketCountOf bucket.results := by
    intro c member
    have known := known_of_selectRows valid selected (List.mem_map_of_mem member)
    have count : (c.map set.row).count = c.count := List.length_map _
    rw [count]
    exact .andReturn (below (set.select c.ids) c.metrics known) fun _ => rfl
  -- What the buckets cost is paid before anything in them is built.
  have paid := Costs.bind (fun _ (buckets : List Bucket) =>
      (buckets.map fun bucket => bucketCountOf bucket.results).sum)
    (.reserve limits candidates.length) (fun _ _ => .mapM each) fun _ buckets _ made =>
      congrArg (· + _) (length_of_mapM made)
  rw [← bind_assoc]
  exact .andReturn paid fun buckets => bucketCountBelow_eq buckets

end Level

mutual

theorem build_costs (limits : Limits) : ∀ (node : Node) (set : RowSet),
    Forest.validate node.children = .ok () →
      Costs limits.buckets (build limits set node) (evaluate limits set.toList node)
        Result.bucketCount
  | ⟨name, typeName, kind, field, params, children⟩, set, valid => by
      rw [build, evaluate]
      refine .free fun method found => ?_
      cases method with
      | metric metric =>
          dsimp only
          rw [Metric.ofRows_toList]
          exact .free fun value _ => .pure rfl
      | pipeline pipeline => exact .error
      | bucketing method =>
          exact buckets_costs valid fun part metrics known =>
            buildAll_costs limits children part metrics (Forest.below_of_validate valid) known

theorem buildAll_costs (limits : Limits) : ∀ (nodes : List Node) (set : RowSet)
    (metrics : Entries Value), (∀ node ∈ nodes, Forest.validate node.children = .ok ()) →
      Known limits set.toList metrics nodes →
      Costs limits.buckets (buildAll limits set metrics nodes) (evaluateAll limits set.toList nodes)
        bucketCountOf
  | [], set, metrics, valid, known => by
      rw [buildAll, evaluateAll]
      exact .pure rfl
  | node :: nodes, set, metrics, valid, known => by
      rw [List.forall_mem_cons] at valid
      obtain ⟨known_node, known_rest⟩ := List.forall_mem_cons.mp known
      have rest := buildAll_costs limits nodes set metrics valid.2 known_rest
      have first := build_costs limits node set valid.1
      rw [buildAll, evaluateAll]
      split
      · exact rest
      · have step {work : BuildM Result} (head : Costs limits.buckets work
              (evaluate limits set.toList node) Result.bucketCount) :
            Costs limits.buckets
              (do
                let result ← work
                return (node.name, result) :: (← buildAll limits set metrics nodes))
              (do
                let result ← evaluate limits set.toList node
                return (node.name, result) :: (← evaluateAll limits set.toList nodes))
              bucketCountOf := by
          refine .bind (fun _ results => bucketCountOf (List.drop 1 results)) head
            (fun result _ => .andReturn rest fun results => rfl) ?_
          intro result results _ h
          obtain ⟨others, -, ⟨⟩⟩ := bind_eq_ok.mp h
          rfl
        split
        · -- The order has computed the metric already, of the same rows.
          rename_i value hit
          refine step ?_
          rw [known_node value hit]
          exact .pure rfl
        · exact step first

end

/-- Buckets can be paid for only while there is a budget. -/
theorem created_le_of_build {limits : Limits} {set : RowSet} {node : Node} {buckets : List Bucket}
    {otherCount : Option Nat} {created after : Nat}
    (h : (build limits set node).run created = .ok (.buckets buckets otherCount, after)) :
    created ≤ limits.buckets := by
  obtain ⟨name, typeName, kind, field, params, children⟩ := node
  rw [build] at h
  obtain ⟨method, middle, found, h⟩ := run_bind_eq_ok.mp h
  obtain ⟨found, rfl⟩ := run_liftM_eq_ok.mp found
  cases method with
  | metric metric =>
      obtain ⟨value, middle, -, h⟩ := run_bind_eq_ok.mp h
      cases (run_pure_eq_ok.mp h).1
  | pipeline pipeline => cases h
  | bucketing method =>
      obtain ⟨selected, middle, chosen, h⟩ := run_bind_eq_ok.mp h
      obtain ⟨-, rfl⟩ := run_liftM_eq_ok.mp chosen
      obtain ⟨_, middle, paid, -⟩ := run_bind_eq_ok.mp h
      by_contra spent
      unfold reserve at paid
      simp only [StateT.run_bind, StateT.run_get, pure_bind] at paid
      rw [if_pos (by omega)] at paid
      cases paid

end Rollup
