import Rollup.Proofs.Aggregation.Published

/-! # Forms of results

The method of a node decides what form its result has. Only a parallel pipeline may have one of two
forms: it hands on the form of what it reads, and in the end that of a node that is none.
-/

namespace Rollup

open Forest

/-! ## Values -/

def Value.shape : Value → Shape
  | .single _ => .single
  | .stats _ => .stats
  | .percentiles _ => .percentiles

theorem shape_of_compute {metric : Metric} {node : Node} {set : RowSet} {value : Value}
    (h : metric.compute node set = .ok value) : value.shape = metric.shape := by
  cases metric with
  | percentiles =>
      obtain ⟨numbers, -, h⟩ := bind_eq_ok.mp h
      obtain ⟨percents, -, ⟨⟩⟩ := bind_eq_ok.mp h
      rfl
  | _ =>
      obtain ⟨numbers, -, ⟨⟩⟩ := bind_eq_ok.mp h
      rfl

/-- There is one percentile for each percent that is asked for. -/
theorem percents_of_compute {node : Node} {set : RowSet} {value : Value}
    (h : Metric.percentiles.compute node set = .ok value) :
    ∃ values percents, value = .percentiles values ∧ Percentiles.percentsOf node = .ok percents ∧
      values.map (·.1) = percents := by
  obtain ⟨numbers, -, h⟩ := bind_eq_ok.mp h
  obtain ⟨percents, asked, ⟨⟩⟩ := bind_eq_ok.mp h
  refine ⟨_, percents, rfl, asked, ?_⟩
  rw [Percentiles.ofValues, List.map_map]
  exact List.map_id percents

theorem shape_apply (reducer : Reducer) (values : List Float) :
    (reducer.apply values).shape = (Pipeline.reduce reducer).shape := by
  cases reducer <;> rfl

theorem shape_applyScalar (reducer : Reducer) (value : Option Float) :
    (reducer.applyScalar value).shape = (Pipeline.reduce reducer).shape := by
  cases reducer <;> rfl

/-! ## Pipelines -/

namespace Pipeline

theorem length_differences (previous : Option Float) (values : List (Option Float)) :
    (differences previous values).length = values.length := by
  induction values generalizing previous with
  | nil => rfl
  | cons value rest ih =>
      cases value <;> rw [differences, List.length_cons, List.length_cons, ih]

theorem length_runningSums (total : Float) (values : List (Option Float)) :
    (runningSums total values).length = values.length := by
  induction values generalizing total with
  | nil => rfl
  | cons value rest ih => rw [runningSums, List.length_cons, List.length_cons, ih]

theorem length_movingMeans (window : Nat) (recent : List Float) (values : List (Option Float)) :
    (movingMeans window recent values).length = values.length := by
  induction values generalizing recent with
  | nil => rfl
  | cons value rest ih => cases value <;> simp only [movingMeans, List.length_cons, ih]

variable {pipeline : Pipeline} {node : Node} {result : Result}

section Sequence

variable {values : List (Key × Option Float)}

theorem keys_of_overSequence {f : List (Option Float) → List (Option Float)}
    (length : ∀ values, (f values).length = values.length)
    (h : overSequence node (.sequence values) f = .ok result) :
    ∃ series, result = .series series ∧ series.map (·.1) = values.map (·.1) := by
  obtain ⟨policy, -, ⟨⟩⟩ := bind_eq_ok.mp h
  refine ⟨_, rfl, List.map_fst_zip ?_⟩
  simp only [length, List.length_map, le_refl]

/-- A parallel pipeline keeps the keys of a sequence, in order. -/
theorem keys_of_compute [Memory] (parallel : pipeline.isParallel)
    (h : pipeline.compute node (.sequence values) = .ok result) :
    ∃ series, result = .series series ∧ series.map (·.1) = values.map (·.1) := by
  cases pipeline with
  | derivative => exact keys_of_overSequence (length_differences none) h
  | cumulativeSum => exact keys_of_overSequence (length_runningSums 0.0) h
  | movingAvg =>
      obtain ⟨window, -, h⟩ := bind_eq_ok.mp h
      exact keys_of_overSequence (length_movingMeans window []) (check_eq_ok.mp h).2
  | reduce reducer => cases parallel

end Sequence

/-- A parallel pipeline makes one value of one, if it makes anything of it. -/
theorem single_of_compute [Memory] (parallel : pipeline.isParallel) {value : Option Float}
    (h : pipeline.compute node (.scalar value) = .ok result) :
    ∃ single, result = .value (.single single) := by
  cases pipeline with
  | derivative => cases h
  | cumulativeSum =>
      cases h
      exact ⟨value, rfl⟩
  | movingAvg =>
      obtain ⟨window, -, h⟩ := bind_eq_ok.mp h
      cases (check_eq_ok.mp h).2
  | reduce reducer => cases parallel

theorem shape_of_compute [Memory] (reduces : ¬ pipeline.isParallel) {input : SiblingValues}
    (h : pipeline.compute node input = .ok result) :
    ∃ value, result = .value value ∧ value.shape = pipeline.shape := by
  cases pipeline with
  | reduce reducer =>
      cases input with
      | scalar value =>
          cases h
          exact ⟨_, rfl, shape_applyScalar reducer value⟩
      | sequence values =>
          obtain ⟨policy, -, ⟨⟩⟩ := bind_eq_ok.mp h
          exact ⟨_, rfl, shape_apply reducer _⟩
  | _ => exact absurd rfl reduces

end Pipeline

/-! ## Following paths -/

/-- A parallel pipeline, whose result has the form of what it reads. -/
def Node.IsParallel (node : Node) : Prop :=
  ∃ pipeline, Method.ofName? node.typeName = some (.pipeline pipeline) ∧ pipeline.isParallel

/-- Where paths lead from a node, through parallel pipelines only. -/
inductive LeadsTo (nodes : List Node) : Node → Node → Prop where
  | stop {node : Node} : ¬ node.IsParallel → LeadsTo nodes node node
  | step {node target last : Node} {path : BucketsPath} :
      node.IsParallel → Reads nodes node target path → LeadsTo nodes target last →
      LeadsTo nodes node last

section Leads

variable {nodes : List Node} {node last : Node} (valid : validate nodes = .ok ())

include valid

/-- A node reads one sibling, so paths lead to one node. -/
theorem LeadsTo.unique (leads : LeadsTo nodes node last) {other : Node}
    (leads' : LeadsTo nodes node other) : other = last := by
  induction leads with
  | stop halts =>
      cases leads' with
      | stop _ => rfl
      | step parallel _ _ => exact absurd parallel halts
  | step parallel reads _ ih =>
      cases leads' with
      | stop halts => exact absurd parallel halts
      | step _ reads' rest =>
          obtain ⟨rfl, -⟩ := reads_unique valid reads reads'
          exact ih rest

theorem before_unique {before before' after after' : List Node}
    (split : nodes = before ++ node :: after) (split' : nodes = before' ++ node :: after') :
    before' = before := by
  have distinct := (names_of_validate valid).of_map
  rw [split, List.nodup_append, List.nodup_cons] at distinct
  obtain ⟨-, ⟨late, -⟩, apart⟩ := distinct
  have early : node ∉ before := fun member => apart node member node List.mem_cons_self rfl
  exact ((List.append_cons_inj_of_notMem early late).mp (split ▸ split')).1.symm

theorem isPipeline_of_parallel (member : node ∈ nodes) (parallel : node.IsParallel) :
    node.isPipeline := by
  obtain ⟨pipeline, named, -⟩ := parallel
  obtain ⟨method, checked⟩ := checked_of_validate valid node member
  cases checked.named.symm.trans named
  simp [Node.isPipeline, ← checked.kind, Method.kind]

theorem leadsTo_of_before {before after : List Node} (split : nodes = before ++ after) :
    ∀ node ∈ before, ∃ last, LeadsTo nodes node last := by
  -- A pipeline that is read stands in what comes before.
  induction before using List.reverseRecOn generalizing after with
  | nil =>
      intro node member
      cases member
  | append_singleton before first ih =>
      rw [List.append_assoc, List.singleton_append] at split
      intro node member
      rcases List.mem_append.mp member with early | own
      · exact ih split node early
      obtain rfl := List.mem_singleton.mp own
      by_cases parallel : node.IsParallel
      · have member : node ∈ nodes := by simp [split]
        obtain ⟨target, path, promised⟩ :=
          promised_of_validate valid member (isPipeline_of_parallel valid member parallel)
        have leads : ∃ last, LeadsTo nodes target last := by
          by_cases further : target.IsParallel
          · obtain ⟨before', after', split', early⟩ := promised.declared
              (isPipeline_of_parallel valid promised.reads.member further)
            rw [before_unique valid split split'] at early
            exact ih split target early
          · exact ⟨target, .stop further⟩
        obtain ⟨last, leads⟩ := leads
        exact ⟨last, .step parallel promised.reads leads⟩
      · exact ⟨node, .stop parallel⟩

/-- Paths lead somewhere from each node. -/
theorem exists_leadsTo (member : node ∈ nodes) : ∃ last, LeadsTo nodes node last :=
  leadsTo_of_before valid (List.append_nil nodes).symm node member

end Leads

/-! ## The form of a result -/

/-- The form that a result has by the method of its node. That of a parallel pipeline depends on where
its path leads to: to buckets, or to a value. -/
def HasForm (nodes : List Node) (node : Node) (result : Result) : Method → Prop
  | .bucketing _ => ∃ buckets otherCount, result = .buckets buckets otherCount
  | .metric metric => ∃ value, result = .value value ∧ value.shape = metric.shape ∧
      (metric = .percentiles → ∃ values percents, value = .percentiles values ∧
        Percentiles.percentsOf node = .ok percents ∧ values.map (·.1) = percents)
  | .pipeline pipeline =>
      if pipeline.isParallel then
        ∃ last, LeadsTo nodes node last ∧ (∀ other, LeadsTo nodes node other → other = last) ∧
          if last.kind = .bucketing then ∃ series, result = .series series
          else ∃ single, result = .value (.single single)
      else ∃ value, result = .value value ∧ value.shape = pipeline.shape

section Level

variable {limits : Limits} {rows : List Row} {nodes : List Node} {results : Entries Result}
  {node : Node} {result : Result} {method : Method}

/-- What a parallel pipeline computes: a series of buckets or of another series, and else a value. -/
theorem of_reading [Memory] {pipeline : Pipeline} (parallel : pipeline.isParallel) {target : Node}
    {sibling : Result} {asked : PathTarget} {input : SiblingValues}
    (reading : Reading target sibling asked input)
    (computed : pipeline.compute node input = .ok result) :
    (sibling.value? = none ∧ ∃ series, result = .series series) ∨
      sibling.value?.isSome ∧ ∃ single, result = .value (.single single) := by
  cases reading with
  | counts =>
      obtain ⟨series, same, -⟩ := Pipeline.keys_of_compute parallel computed
      exact .inl ⟨rfl, series, same⟩
  | metric =>
      obtain ⟨series, same, -⟩ := Pipeline.keys_of_compute parallel computed
      exact .inl ⟨rfl, series, same⟩
  | series =>
      obtain ⟨series, same, -⟩ := Pipeline.keys_of_compute parallel computed
      exact .inl ⟨rfl, series, same⟩
  | property => exact .inr ⟨rfl, Pipeline.single_of_compute parallel computed⟩

theorem form_of_evaluate [Memory] (checked : node.Checked method) {before : Result}
    (evaluated : evaluate limits rows node = .ok before)
    (below : resolveBelow node before = .ok result) : HasForm nodes node result method := by
  cases method with
  | bucketing bucketing =>
      rcases result_of_evaluate checked.named evaluated with
        ⟨-, buckets, otherCount, rfl⟩ | ⟨⟨⟩, -⟩
      obtain ⟨after, rfl, -⟩ := resolved_of_evaluate checked evaluated below
      exact ⟨after, otherCount, rfl⟩
  | metric metric =>
      obtain ⟨value, computed, rfl⟩ := (evaluate_metric_iff checked.named).mp evaluated
      cases (resolveBelow_of_not_buckets rfl).symm.trans below
      refine ⟨value, rfl, shape_of_compute computed, ?_⟩
      rintro rfl
      exact percents_of_compute computed
  | pipeline pipeline =>
      rcases result_of_evaluate checked.named evaluated with ⟨⟨⟩, -⟩ | ⟨⟨⟩, -⟩

/-- The result of a node that is no parallel pipeline. -/
theorem form_of_published [Memory] (checked : node.Checked method) (plain : ¬ node.IsParallel)
    (published : Published limits rows nodes results node result) :
    HasForm nodes node result method := by
  cases published with
  | built _ evaluated below => exact form_of_evaluate checked evaluated below
  | @computed _ pipeline _ _ _ _ named _ _ _ computed =>
      cases checked.named.symm.trans named
      have reduces : ¬ pipeline.isParallel := fun parallel => plain ⟨pipeline, named, parallel⟩
      rw [HasForm, if_neg reduces]
      exact Pipeline.shape_of_compute reduces computed

theorem bucketing_iff_of_form (checked : node.Checked method) (plain : ¬ node.IsParallel)
    (form : HasForm nodes node result method) : node.kind = .bucketing ↔ result.value? = none := by
  rw [← checked.kind]
  cases method with
  | bucketing bucketing =>
      obtain ⟨buckets, otherCount, rfl⟩ := form
      exact iff_of_true rfl rfl
  | metric metric =>
      obtain ⟨value, rfl, -⟩ := form
      exact iff_of_false nofun nofun
  | pipeline pipeline =>
      rw [HasForm, if_neg fun parallel => plain ⟨pipeline, checked.named, parallel⟩] at form
      obtain ⟨value, rfl, -⟩ := form
      exact iff_of_false nofun nofun

variable [Memory] (valid : validate nodes = .ok ())
  (published : ∀ node ∈ nodes, ∃ result, results.lookup node.name = some result ∧
    Published limits rows nodes results node result)

include valid published

/-- Paths lead to buckets exactly from the nodes that have no value. -/
theorem bucketing_iff_of_leadsTo {last : Node} (leads : LeadsTo nodes node last)
    (member : node ∈ nodes) (found : results.lookup node.name = some result) :
    last.kind = .bucketing ↔ result.value? = none := by
  induction leads generalizing result with
  | @stop node plain =>
      obtain ⟨method, checked⟩ := checked_of_validate valid node member
      obtain ⟨result', found', published⟩ := published node member
      cases found.symm.trans found'
      exact bucketing_iff_of_form checked plain (form_of_published checked plain published)
  | @step node target last path parallel reads _ ih =>
      obtain ⟨result', found', published⟩ := published node member
      cases found.symm.trans found'
      cases published with
      | built plain => exact absurd (isPipeline_of_parallel valid member parallel) plain
      | computed named promised hsibling reading computed =>
          obtain ⟨pipeline, named', parallel⟩ := parallel
          cases named.symm.trans named'
          obtain ⟨rfl, rfl⟩ := reads_unique valid reads promised.reads
          rw [ih reads.member hsibling]
          rcases of_reading parallel reading computed with
            ⟨none, series, rfl⟩ | ⟨some, single, rfl⟩
          · exact iff_of_true none rfl
          · exact iff_of_false (fun none => by simp [none] at some) nofun

/-- The result of each node of a level has the form that its method calls for. -/
theorem form_of_level (member : node ∈ nodes) (checked : node.Checked method)
    (found : results.lookup node.name = some result) : HasForm nodes node result method := by
  obtain ⟨result', found', hpublished⟩ := published node member
  cases found.symm.trans found'
  by_cases parallel : node.IsParallel
  · obtain ⟨last, leads⟩ := exists_leadsTo valid member
    have bucketing := bucketing_iff_of_leadsTo valid published leads member found
    cases hpublished with
    | built plain => exact absurd (isPipeline_of_parallel valid member parallel) plain
    | computed named promised hsibling reading computed =>
        obtain ⟨pipeline, named', parallel⟩ := parallel
        cases checked.named.symm.trans named'
        cases named.symm.trans named'
        rw [HasForm, if_pos parallel]
        refine ⟨last, leads, fun other leads' => leads.unique valid leads', ?_⟩
        rcases of_reading parallel reading computed with
          ⟨none, series, rfl⟩ | ⟨some, single, rfl⟩
        · rw [if_pos (bucketing.mpr rfl)]
          exact ⟨series, rfl⟩
        · rw [if_neg fun is => nomatch bucketing.mp is]
          exact ⟨single, rfl⟩
  · exact form_of_published checked parallel hpublished

end Level

end Rollup
