import Rollup.Proofs.Aggregation.Dependencies
import Rollup.Proofs.Aggregation.Site

/-! # What a level publishes

A resolved level has one result for each of its nodes, in their order. What a pipeline was computed
of can still be read off the level in the end: nothing that it read has changed since.
-/

namespace Rollup

open Forest

/-- A node is declared before another one of its level. -/
def DeclaredBefore (nodes : List Node) (target node : Node) : Prop :=
  ∃ before after, nodes = before ++ node :: after ∧ target ∈ before

/-- What a level promises to each of its pipelines: a sibling to read, which is declared earlier if it
is a pipeline itself, and has the metric that is asked for in its buckets. -/
structure Promised (nodes : List Node) (node target : Node) (path : BucketsPath) : Prop where
  reads : Reads nodes node target path
  apart : target.name ≠ node.name
  declared : target.isPipeline → DeclaredBefore nodes target node
  inside : ∀ inner, path.target = .metric inner → ∃ shape, target.metricShape? inner.name = some shape

section Pipelines

variable {nodes : List Node}

theorem dependency_of_validatePipelines {ancestors : List String} {earlier rest : List Node}
    {sequences : List String}
    (accepted : validatePipelines nodes ancestors earlier sequences rest = .ok ()) {node : Node}
    (member : node ∈ rest) (is : node.isPipeline) :
    ∃ before after known, rest = before ++ node :: after ∧
      validateDependency nodes ancestors (before.reverse ++ earlier) known node = .ok () := by
  induction rest generalizing earlier sequences with
  | nil => cases member
  | cons first rest ih =>
      rw [validatePipelines] at accepted
      have later {sequences : List String}
          (accepted : validatePipelines nodes ancestors (first :: earlier) sequences rest = .ok ())
          (member : node ∈ rest) : ∃ before after known, first :: rest = before ++ node :: after ∧
            validateDependency nodes ancestors (before.reverse ++ earlier) known node = .ok () := by
        obtain ⟨before, after, known, rfl, checked⟩ := ih accepted member
        refine ⟨first :: before, after, known, rfl, ?_⟩
        rwa [List.reverse_cons, List.append_assoc]
      by_cases pipes : first.isPipeline
      · rw [if_pos pipes] at accepted
        obtain ⟨checked, accepted⟩ := check_eq_ok.mp accepted
        rcases List.mem_cons.mp member with rfl | member
        · exact ⟨[], rest, sequences, rfl, checked⟩
        · exact later accepted member
      · rw [if_neg pipes] at accepted
        rcases List.mem_cons.mp member with rfl | member
        · exact absurd is pipes
        · exact later accepted member

/-- A property that a path asks of a metric, beside the node or in the buckets beside it, passes the
check for the shape of the metric. -/
theorem checks_of_validateDependency {ancestors : List String} {earlier : List Node}
    {sequences : List String} {node : Node}
    (h : validateDependency nodes ancestors earlier sequences node = .ok ()) {path : BucketsPath}
    (asked : BucketsPath.ofNode node = .ok path) :
    ∃ target ∈ nodes, target.name = path.sibling ∧
      (∀ inner, path.target = .metric inner → ∃ shape, target.metricShape? inner.name = some shape ∧
        shape.checkProperty inner.property = .ok ()) ∧
      ∀ property, path.target = .itself property → target.kind ≠ .bucketing →
        ∃ method, target.method = .ok method ∧
          (method.shape?.getD .single).checkProperty property = .ok () := by
  rw [validateDependency, asked] at h
  change (if path.sibling = node.name then _ else _) = _ at h
  split at h
  · cases h
  split at h
  · split at h <;> cases h
  rename_i target found
  refine ⟨target, List.mem_of_find?_eq_some found, by simpa using List.find?_some found, ?_⟩
  dsimp only at h
  split at h
  case h_1 is reads => exact ⟨by simp [reads], fun _ _ plain => absurd is plain⟩
  case h_2 is reads => exact ⟨by simp [reads], fun _ _ plain => absurd is plain⟩
  case h_3 => cases h
  case h_4 is reads =>
    refine ⟨?_, fun _ _ plain => absurd is plain⟩
    rintro inner same
    cases reads.symm.trans same
    split at h
    · cases h
    refine ⟨_, ‹_›, ?_⟩
    split at h
    · assumption
    · cases h
  case h_5 => cases h
  case h_6 => cases h
  case h_7 property reads _ _ =>
    refine ⟨by simp [reads], ?_⟩
    rintro _ same -
    cases reads.symm.trans same
    split at h
    · cases h
    obtain ⟨own, -, h⟩ := bind_eq_ok.mp h
    split_ifs at h
    obtain ⟨method, known, h⟩ := bind_eq_ok.mp h
    refine ⟨method, known, ?_⟩
    split at h
    · assumption
    · cases h

variable (valid : validate nodes = .ok ()) {node : Node}

include valid

theorem names_after {before after : List Node} (split : nodes = before ++ node :: after) :
    (∀ other ∈ after, other.name ≠ node.name) ∧
      ∀ other ∈ after, ∀ first ∈ before, other.name ≠ first.name := by
  have distinct := names_of_validate valid
  rw [split, List.map_append, List.map_cons, List.nodup_append, List.nodup_cons] at distinct
  obtain ⟨-, ⟨own, -⟩, apart⟩ := distinct
  constructor
  · intro other hother same
    exact own (same ▸ List.mem_map_of_mem hother)
  · intro other hother first hfirst same
    exact apart _ (List.mem_map_of_mem hfirst) _
      (List.mem_cons_of_mem _ (List.mem_map_of_mem hother)) same.symm

variable (member : node ∈ nodes)

include member

/-- No pipeline that comes after a node takes the name of what the node reads. -/
theorem split_of_promised {target : Node} {path : BucketsPath}
    (promised : Promised nodes node target path) :
    ∃ before after, nodes = before ++ node :: after ∧
      ∀ other ∈ after, other.isPipeline → other.name ≠ target.name := by
  by_cases pipes : target.isPipeline
  · obtain ⟨before, after, split, first⟩ := promised.declared pipes
    refine ⟨before, after, split, fun other hother _ => ?_⟩
    exact (names_after valid split).2 other hother target first
  · obtain ⟨before, after, split⟩ := List.append_of_mem member
    refine ⟨before, after, split, fun other hother is same => pipes ?_⟩
    have hother' : other ∈ nodes := by simp [split, hother]
    exact eq_of_name valid hother' promised.reads.member same ▸ is

variable (is : node.isPipeline)

include is

theorem promised_of_validate : ∃ target path, Promised nodes node target path := by
  have level := check_eq_ok.mp (validate_eq_ok.mp valid).1
  obtain ⟨before, after, known, split, checked⟩ :=
    dependency_of_validatePipelines level.2 member is
  obtain ⟨target, path, reads, apart, allowed⟩ := allowed_of_validateDependency checked
  refine ⟨target, path, reads, apart, fun pipes => ?_, fun inner asks => ?_⟩
  · obtain ⟨other, hother, same⟩ := allowed.declared pipes
    rw [List.append_nil, List.mem_reverse] at hother
    have hother' : other ∈ nodes := split ▸ List.mem_append_left _ hother
    obtain rfl := eq_of_name valid hother' reads.member same
    exact ⟨before, after, split, hother⟩
  · obtain ⟨other, hother, same, inside, -⟩ := checks_of_validateDependency checked reads.asked
    obtain rfl := eq_of_name valid hother reads.member (same.trans reads.name.symm)
    obtain ⟨shape, shaped, -⟩ := inside inner asks
    exact ⟨shape, shaped⟩

/-- A result is what a node computes of what it reads among some results. -/
structure Computed [Memory] (results : Entries Result) (node : Node) (pipeline : Pipeline)
    (path : BucketsPath) (input : SiblingValues) (result : Result) : Prop where
  named : Method.ofName? node.typeName = some (.pipeline pipeline)
  asked : BucketsPath.ofNode node = .ok path
  read : siblingValues node path results = .ok input
  computed : pipeline.compute node input = .ok result

/-- A pipeline is resolved once: nodes after it change neither its result nor what it reads. -/
theorem computed_of_resolvePipelines [Memory] {results final : Entries Result}
    (h : resolvePipelines nodes results = .ok final) {target : Node} {path : BucketsPath}
    (promised : Promised nodes node target path) :
    ∃ pipeline input result, Computed final node pipeline path input result ∧
      final.lookup node.name = some result := by
  obtain ⟨pipeline, checked⟩ := pipeline_of_validate valid member is
  obtain ⟨before, after, split, free⟩ := split_of_promised valid member promised
  unfold resolvePipelines at h
  rw [split, List.filter_append, List.filter_cons_of_pos is, List.foldlM_append] at h
  obtain ⟨first, -, h⟩ := bind_eq_ok.mp h
  rw [List.foldlM_cons, resolvePipeline_eq checked.named promised.reads.asked] at h
  obtain ⟨second, own, rest⟩ := bind_eq_ok.mp h
  obtain ⟨input, read, own⟩ := bind_eq_ok.mp own
  obtain ⟨result, computed, ⟨⟩⟩ := bind_eq_ok.mp own
  have kept : final.lookup path.sibling = first.lookup path.sibling := by
    have free (other : Node) (hother : other ∈ after) (is : other.isPipeline) :
        other.name ≠ path.sibling := promised.reads.name ▸ free other hother is
    have apart : path.sibling ≠ node.name := promised.reads.name ▸ promised.apart
    rw [lookup_resolvePipelines rest free, Entries.lookup_set, if_neg apart]
  refine ⟨pipeline, input, result, ⟨checked.named, promised.reads.asked, ?_, computed⟩, ?_⟩
  · unfold siblingValues at read ⊢
    rwa [kept]
  · have others := (names_after valid split).1
    rw [lookup_resolvePipelines rest fun other hother _ => others other hother,
      Entries.lookup_set, if_pos rfl]

end Pipelines

/-! ## All results of a level -/

section Names

variable [Memory] {nodes : List Node} {results final : Entries Result}

theorem resolveAllBelow_eq_ok (known : ∀ node ∈ nodes, (results.lookup node.name).isSome) :
    resolveAllBelow results nodes = .ok final ↔
      List.Forall₂ (fun node entry => entry.1 = node.name ∧
        ∃ before, results.lookup node.name = some before ∧ resolveBelow node before = .ok entry.2)
        nodes final := by
  induction nodes generalizing final with
  | nil =>
      rw [resolveAllBelow]
      constructor
      · rintro ⟨⟩
        exact .nil
      · rintro ⟨⟩
        rfl
  | cons node nodes ih =>
      rw [List.forall_mem_cons] at known
      obtain ⟨before, found⟩ := Option.isSome_iff_exists.mp known.1
      rw [resolveAllBelow, found]
      simp only [bind_eq_ok, ih known.2]
      constructor
      · rintro ⟨after, below, others, rest, ⟨⟩⟩
        exact .cons ⟨rfl, before, found, below⟩ rest
      · rintro (_ | ⟨⟨same, before', found', below⟩, rest⟩)
        cases found.symm.trans found'
        exact ⟨_, below, _, rest, by rw [← same]; rfl⟩

theorem names_of_resolveAllBelow (known : ∀ node ∈ nodes, (results.lookup node.name).isSome)
    (below : resolveAllBelow results nodes = .ok final) :
    final.map (·.1) = nodes.map (·.name) :=
  map_eq_of_related ((resolveAllBelow_eq_ok known).mp below) fun _ _ related => related.1

theorem lookup_resolveAllBelow (distinct : (nodes.map (·.name)).Nodup)
    (known : ∀ node ∈ nodes, (results.lookup node.name).isSome)
    (below : resolveAllBelow results nodes = .ok final) {node : Node} (member : node ∈ nodes) :
    ∃ before after, results.lookup node.name = some before ∧ resolveBelow node before = .ok after ∧
      final.lookup node.name = some after := by
  have names := names_of_resolveAllBelow known below
  obtain ⟨entry, hentry, same, before, found, resolved⟩ :=
    exists_related ((resolveAllBelow_eq_ok known).mp below).flip member
  refine ⟨before, entry.2, found, resolved, lookup_of_mem (names ▸ distinct) ?_⟩
  rw [← same]
  exact hentry

end Names

/-! ## What is read off a sibling -/

section Read

variable {node : Node} {path : BucketsPath} {results : Entries Result} {input : SiblingValues}
  (read : siblingValues node path results = .ok input)

include read

theorem of_read_value {value : Value} (found : results.lookup path.sibling = some (.value value)) :
    ∃ property, path.target = .itself property ∧ input = .scalar (value.property? property) := by
  unfold siblingValues at read
  rw [found] at read
  cases asks : path.target <;> rw [asks] at read <;> cases read
  exact ⟨_, rfl, rfl⟩

theorem of_read_series {values : List (Key × Option Float)}
    (found : results.lookup path.sibling = some (.series values)) :
    path.target = .itself none ∧ input = .sequence values := by
  unfold siblingValues at read
  rw [found] at read
  cases asks : path.target with
  | itself property =>
      rw [asks] at read
      cases property <;> cases read
      exact ⟨rfl, rfl⟩
  | count =>
      rw [asks] at read
      cases read
  | metric inner =>
      rw [asks] at read
      cases read

theorem of_read_buckets {buckets : List Bucket} {otherCount : Option Nat}
    (found : results.lookup path.sibling = some (.buckets buckets otherCount)) :
    ((path.target = .itself none ∨ path.target = .count) ∧
      input = .sequence (buckets.map fun b => (b.key, some (Binary64.ofInt b.count)))) ∨
    ∃ inner, path.target = .metric inner ∧ input = .sequence (buckets.map fun b =>
      (b.key, do (← (← b.results.lookup inner.name).value?).property? inner.property)) := by
  unfold siblingValues at read
  rw [found] at read
  cases asks : path.target with
  | itself property =>
      rw [asks] at read
      cases property <;> cases read
      exact .inl ⟨.inl rfl, rfl⟩
  | count =>
      rw [asks] at read
      cases read
      exact .inl ⟨.inr rfl, rfl⟩
  | metric inner =>
      rw [asks] at read
      cases read
      exact .inr ⟨inner, rfl, rfl⟩

end Read

/-- What is read off the result of a sibling: the counts of its buckets, the number that a metric has in
each of them, a number of its value, or its series. -/
inductive Reading (target : Node) : Result → PathTarget → SiblingValues → Prop where
  | counts {buckets : List Bucket} {otherCount : Option Nat} {asked : PathTarget} :
      target.kind = .bucketing → asked = .itself none ∨ asked = .count →
      Reading target (.buckets buckets otherCount) asked
        (.sequence (buckets.map fun bucket => (bucket.key, some (Binary64.ofInt bucket.count))))
  | metric {buckets : List Bucket} {otherCount : Option Nat} {inner : PropertyPath} {child : Node}
      {values : List (Key × Option Float)} :
      target.kind = .bucketing → child ∈ target.children → child.name = inner.name →
      child.kind = .metric →
      List.Forall₂ (fun bucket entry => entry.1 = bucket.key ∧
        ∃ value, bucket.results.lookup inner.name = some (.value value) ∧
          entry.2 = value.property? inner.property) buckets values →
      Reading target (.buckets buckets otherCount) (.metric inner) (.sequence values)
  | property {value : Value} {property : Option String} :
      target.kind ≠ .bucketing →
      Reading target (.value value) (.itself property) (.scalar (value.property? property))
  | series {values : List (Key × Option Float)} :
      target.isPipeline → Reading target (.series values) (.itself none) (.sequence values)

/-- What is published for a node in the end: what it evaluates to, with the levels below resolved, or
what it computes of what it reads among all that is published beside it. -/
inductive Published [Memory] (limits : Limits) (rows : List Row) (nodes : List Node)
    (results : Entries Result) (node : Node) : Result → Prop where
  | built {before after : Result} :
      ¬ node.isPipeline → evaluate limits rows node = .ok before →
      resolveBelow node before = .ok after → Published limits rows nodes results node after
  | computed {target : Node} {pipeline : Pipeline} {path : BucketsPath} {sibling : Result}
      {input : SiblingValues} {result : Result} :
      Method.ofName? node.typeName = some (.pipeline pipeline) →
      Promised nodes node target path → results.lookup target.name = some sibling →
      Reading target sibling path.target input → pipeline.compute node input = .ok result →
      Published limits rows nodes results node result

section Level

variable [Memory] {limits : Limits} {rows : List Row} {nodes : List Node}
  {built piped results : Entries Result} {node : Node}

/-- What stands for a node once the pipelines of its level are resolved. -/
inductive Standing (limits : Limits) (rows : List Row) (built : Entries Result) (node : Node) :
    Result → Prop where
  | built {result : Result} :
      ¬ node.isPipeline → built.lookup node.name = some result →
      evaluate limits rows node = .ok result → Standing limits rows built node result
  | pipeline {result : Result} :
      node.isPipeline → result.buckets? = none → Standing limits rows built node result

theorem standing_of_resolvePipelines (valid : validate nodes = .ok ())
    (evaluated : evaluateAll limits rows nodes = .ok built)
    (pipelines : resolvePipelines nodes built = .ok piped) (member : node ∈ nodes) :
    ∃ result, piped.lookup node.name = some result ∧ Standing limits rows built node result := by
  by_cases is : node.isPipeline
  · obtain ⟨target, path, promised⟩ := promised_of_validate valid member is
    obtain ⟨pipeline, input, result, computed, found⟩ :=
      computed_of_resolvePipelines valid member is pipelines promised
    exact ⟨result, found, .pipeline is (buckets?_of_compute computed.computed)⟩
  · obtain ⟨result, found, computed⟩ :=
      lookup_evaluateAll (names_of_validate valid) evaluated member is
    refine ⟨result, ?_, .built is found computed⟩
    rw [← found]
    exact lookup_resolvePipelines pipelines fun _ hother pipes same =>
      is (eq_of_name valid hother member same ▸ pipes)

/-- The names of a level are those of its nodes. -/
theorem names_of_built (valid : validate nodes = .ok ())
    (known : ∀ node ∈ nodes, ¬ node.isPipeline → (built.lookup node.name).isSome)
    (resolved : resolve nodes built = .ok results) :
    results.map (·.1) = nodes.map (·.name) := by
  obtain ⟨piped, pipelines, below⟩ := bind_eq_ok.mp resolved
  refine names_of_resolveAllBelow (fun node member => ?_) below
  by_cases is : node.isPipeline
  · obtain ⟨target, path, promised⟩ := promised_of_validate valid member is
    obtain ⟨pipeline, input, result, -, found⟩ :=
      computed_of_resolvePipelines valid member is pipelines promised
    exact Option.isSome_of_eq_some found
  · rw [lookup_resolvePipelines pipelines fun _ hother pipes same =>
      is (eq_of_name valid hother member same ▸ pipes)]
    exact known node member is

theorem names_of_resolve (valid : validate nodes = .ok ())
    (evaluated : evaluateAll limits rows nodes = .ok built)
    (resolved : resolve nodes built = .ok results) :
    results.map (·.1) = nodes.map (·.name) := by
  refine names_of_built valid (fun node member plain => ?_) resolved
  obtain ⟨result, found, -⟩ := lookup_evaluateAll (names_of_validate valid) evaluated member plain
  exact Option.isSome_of_eq_some found

/-- Each node of a level has a result in the end, made of what stood for it before. -/
theorem lookup_of_resolve (valid : validate nodes = .ok ())
    (evaluated : evaluateAll limits rows nodes = .ok built)
    (pipelines : resolvePipelines nodes built = .ok piped)
    (below : resolveAllBelow piped nodes = .ok results) (member : node ∈ nodes) :
    ∃ before after, piped.lookup node.name = some before ∧
      Standing limits rows built node before ∧ resolveBelow node before = .ok after ∧
      results.lookup node.name = some after := by
  have standing {other : Node} (hother : other ∈ nodes) :=
    standing_of_resolvePipelines valid evaluated pipelines hother
  have known : ∀ other ∈ nodes, (piped.lookup other.name).isSome := fun other hother => by
    obtain ⟨result, found, -⟩ := standing hother
    exact Option.isSome_of_eq_some found
  obtain ⟨before, after, found, inner, final⟩ :=
    lookup_resolveAllBelow (names_of_validate valid) known below member
  obtain ⟨result, found', stands⟩ := standing member
  cases found.symm.trans found'
  exact ⟨before, after, found, stands, inner, final⟩

omit [Memory] in
theorem metric_of_metricShape? {name : String} {shape : Shape}
    (h : node.metricShape? name = some shape) :
    ∃ child ∈ node.children, child.name = name ∧ child.kind = .metric := by
  obtain ⟨child, found, h⟩ := Option.bind_eq_some_iff.mp h
  refine ⟨child, List.mem_of_find?_eq_some found, by simpa using List.find?_some found, ?_⟩
  by_contra other
  rw [if_pos other] at h
  cases h

/-- A metric is published as it was built. -/
theorem value_of_resolve (valid : validate nodes = .ok ())
    (evaluated : evaluateAll limits rows nodes = .ok built)
    (resolved : resolve nodes built = .ok results) (member : node ∈ nodes)
    (is : node.kind = .metric) :
    ∃ value, built.lookup node.name = some (.value value) ∧
      results.lookup node.name = some (.value value) := by
  obtain ⟨piped, pipelines, below⟩ := bind_eq_ok.mp resolved
  obtain ⟨before, after, -, stands, below, final⟩ :=
    lookup_of_resolve valid evaluated pipelines below member
  cases stands with
  | pipeline pipes => simp [Node.isPipeline, is] at pipes
  | built plain found computed =>
      obtain ⟨method, checked⟩ := checked_of_validate valid node member
      rcases result_of_evaluate checked.named computed with ⟨buckets, -⟩ | ⟨-, value, rfl⟩
      · cases (checked.kind.symm.trans buckets).symm.trans is
      · cases (resolveBelow_of_not_buckets rfl).symm.trans below
        exact ⟨value, found, final⟩

/-- Buckets are published with the keys, the counts and the metrics that they were built with. -/
theorem buckets_of_resolveBelow {method : Method} (checked : node.Checked method)
    (below : validate node.children = .ok ()) {buckets : List Bucket} {otherCount : Option Nat}
    (evaluated : evaluate limits rows node = .ok (.buckets buckets otherCount)) {after : Result}
    (resolved : resolveBelow node (.buckets buckets otherCount) = .ok after) :
    ∃ final, after = .buckets final otherCount ∧
      List.Forall₂ (fun before after => after.key = before.key ∧ after.count = before.count ∧
        ∀ child ∈ node.children, child.kind = .metric →
          ∃ value, before.results.lookup child.name = some (.value value) ∧
            after.results.lookup child.name = some (.value value)) buckets final := by
  obtain ⟨final, same, each⟩ := resolved_of_evaluate checked evaluated resolved
  obtain ⟨bucketing, kept, -, -, made⟩ := evaluate_buckets_iff.mp evaluated
  have known : ∀ bucket ∈ buckets,
      ∃ rows, evaluateAll limits rows node.children = .ok bucket.results := by
    intro bucket member
    obtain ⟨candidate, -, -, -, evaluated⟩ := exists_related made member
    exact ⟨_, evaluated⟩
  refine ⟨final, same, ((List.forall₂_and_left _ _).mpr ⟨known, each⟩).imp ?_⟩
  intro before after related
  obtain ⟨⟨rows, evaluated⟩, key, count, resolved⟩ := related
  exact ⟨key, count, fun child member is => value_of_resolve below evaluated resolved member is⟩

/-- What a pipeline read off the buckets of a sibling can be read off them in the end. -/
theorem reading_of_buckets {target : Node} {method : Method} (checked : target.Checked method)
    (below : validate target.children = .ok ()) {path : BucketsPath}
    (promised : Promised nodes node target path) {buckets : List Bucket} {otherCount : Option Nat}
    (computed : evaluate limits rows target = .ok (.buckets buckets otherCount)) {after : Result}
    (resolved : resolveBelow target (.buckets buckets otherCount) = .ok after)
    (found : piped.lookup path.sibling = some (.buckets buckets otherCount))
    {input : SiblingValues} (read : siblingValues node path piped = .ok input) :
    Reading target after path.target input := by
  obtain ⟨bucketing, -, named, -⟩ := evaluate_buckets_iff.mp computed
  have is : target.kind = .bucketing := by
    cases checked.named.symm.trans named
    exact checked.kind.symm
  obtain ⟨final, rfl, each⟩ := buckets_of_resolveBelow checked below computed resolved
  rcases of_read_buckets read found with ⟨asks, rfl⟩ | ⟨inner, asks, rfl⟩
  · have counts : (final.map fun b => (b.key, some (Binary64.ofInt b.count))) =
        buckets.map fun b => (b.key, some (Binary64.ofInt b.count)) := by
      refine map_eq_of_related each fun before after related => ?_
      rw [related.1, related.2.1]
    rw [← counts]
    exact .counts is asks
  · obtain ⟨shape, shaped⟩ := promised.inside inner asks
    obtain ⟨child, hchild, named, metric⟩ := metric_of_metricShape? shaped
    rw [asks]
    refine .metric is hchild named metric (List.forall₂_map_right_iff.mpr (each.imp ?_).flip)
    intro before after related
    obtain ⟨key, -, metrics⟩ := related
    obtain ⟨value, old, new⟩ := metrics child hchild metric
    rw [named] at old new
    refine ⟨key.symm, value, new, ?_⟩
    rw [old]
    rfl

/-- What a pipeline read can be read off what is published in the end. -/
theorem reading_of_siblingValues (valid : validate nodes = .ok ())
    (evaluated : evaluateAll limits rows nodes = .ok built)
    (pipelines : resolvePipelines nodes built = .ok piped)
    (below : resolveAllBelow piped nodes = .ok results) {target : Node} {path : BucketsPath}
    (promised : Promised nodes node target path) {input : SiblingValues}
    (read : siblingValues node path piped = .ok input) :
    ∃ sibling, results.lookup target.name = some sibling ∧
      Reading target sibling path.target input := by
  have member := promised.reads.member
  obtain ⟨before, after, found, stands, inner, final⟩ :=
    lookup_of_resolve valid evaluated pipelines below member
  refine ⟨after, final, ?_⟩
  rw [promised.reads.name] at found
  obtain ⟨method, checked⟩ := checked_of_validate valid target member
  have value {value : Value} (plain : target.kind ≠ .bucketing)
      (found : piped.lookup path.sibling = some (.value value))
      (inner : resolveBelow target (.value value) = .ok after) :
      Reading target after path.target input := by
    cases (resolveBelow_of_not_buckets rfl).symm.trans inner
    obtain ⟨property, asks, rfl⟩ := of_read_value read found
    rw [asks]
    exact .property plain
  cases stands with
  | built plain _ computed =>
      rcases result_of_evaluate checked.named computed with
        ⟨-, buckets, otherCount, rfl⟩ | ⟨is, single, rfl⟩
      · exact reading_of_buckets checked (below_of_validate valid target member) promised computed
          inner found read
      · refine value ?_ found inner
        rw [← checked.kind, is]
        nofun
  | pipeline is unbucketed =>
      cases before with
      | buckets => cases unbucketed
      | value single => exact value (by simp_all [Node.isPipeline]) found inner
      | series values =>
          cases (resolveBelow_of_not_buckets rfl).symm.trans inner
          obtain ⟨asks, rfl⟩ := of_read_series read found
          rw [asks]
          exact .series is

/-- Every node of a level is published as it should. -/
theorem published_of_resolve (valid : validate nodes = .ok ())
    (evaluated : evaluateAll limits rows nodes = .ok built)
    (resolved : resolve nodes built = .ok results) (member : node ∈ nodes) :
    ∃ result, results.lookup node.name = some result ∧
      Published limits rows nodes results node result := by
  obtain ⟨piped, pipelines, below⟩ := bind_eq_ok.mp resolved
  obtain ⟨before, after, found, stands, inner, final⟩ :=
    lookup_of_resolve valid evaluated pipelines below member
  refine ⟨after, final, ?_⟩
  cases stands with
  | built plain _ computed => exact .built plain computed inner
  | pipeline is unbucketed =>
      obtain ⟨target, path, promised⟩ := promised_of_validate valid member is
      obtain ⟨pipeline, input, result, computed, found'⟩ :=
        computed_of_resolvePipelines valid member is pipelines promised
      cases found.symm.trans found'
      cases (resolveBelow_of_not_buckets unbucketed).symm.trans inner
      obtain ⟨sibling, hsibling, reading⟩ :=
        reading_of_siblingValues valid evaluated pipelines below promised computed.read
      exact .computed computed.named promised hsibling reading computed.computed

end Level

end Rollup
