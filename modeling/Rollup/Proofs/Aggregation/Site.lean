import Rollup.Proofs.Aggregation.Evaluate
import Rollup.Proofs.Aggregation.Resolve

/-! # Where results stand

A result in an answer is that of a node over certain rows: all of them at the top, and inside a
bucket those that the node of the bucket counts under its key. Every result of an answer is what its
node evaluates to over its rows, with the levels below resolved.
-/

namespace Rollup

/-- A result, the node that it is of, the rows that it was made from, and how many rows are counted
where it stands. -/
structure Site where
  node : Node
  rows : List Row
  count : Nat
  result : Result

namespace Site

/-- The rows of a site that are counted under a key. -/
def rowsOf (site : Site) (key : Key) : List Row :=
  site.rows.filter fun row => site.node.keyOf? row = some key

/-- One site lies in a bucket of another. -/
inductive Below : Site → Site → Prop where
  | bucket {site : Site} {buckets : List Bucket} {otherCount : Option Nat} {bucket : Bucket}
      {child : Node} {result : Result} :
      site.result = .buckets buckets otherCount → bucket ∈ buckets →
      child ∈ site.node.children → (child.name, result) ∈ bucket.results →
      Below site ⟨child, site.rowsOf bucket.key, bucket.count, result⟩

end Site

/-! ## Levels that are evaluated -/

/-- What stands for the nodes of a level, pipelines aside: what they evaluate to, each over rows of
its own. -/
def Evaluated (limits : Limits) (rowsFor : Node → List Row) (nodes : List Node)
    (built : Entries Result) : Prop :=
  List.Forall₂ (fun node entry => entry.1 = node.name ∧
      evaluate limits (rowsFor node) node = .ok entry.2 ∧ entry.2.bucketCount ≤ limits.buckets)
    (nodes.filter fun node => !node.isPipeline) built

theorem bucketCountOf_eq (results : Entries Result) :
    bucketCountOf results = (results.map (·.2.bucketCount)).sum := by
  induction results with
  | nil => rfl
  | cons entry results ih => rw [bucketCountOf, ih, List.map_cons, List.sum_cons]

theorem bucketCount_le {results : Entries Result} {entry : String × Result}
    (member : entry ∈ results) : entry.2.bucketCount ≤ bucketCountOf results := by
  rw [bucketCountOf_eq]
  exact List.le_sum_of_mem (List.mem_map_of_mem (f := fun e : String × Result => e.2.bucketCount) member)

theorem evaluated_of_evaluateAll {limits : Limits} {rows : List Row} {nodes : List Node}
    {built : Entries Result} (h : evaluateAll limits rows nodes = .ok built)
    (within : bucketCountOf built ≤ limits.buckets) :
    Evaluated limits (fun _ => rows) nodes built := by
  have each : ∀ entry ∈ built, entry.2.bucketCount ≤ limits.buckets := fun entry member =>
    (bucketCount_le member).trans within
  rw [evaluateAll_eq, mapM_eq_ok] at h
  unfold Evaluated
  generalize nodes.filter _ = plain at h
  induction h with
  | nil => exact .nil
  | cons computed rest ih =>
      obtain ⟨result, evaluated, ⟨⟩⟩ := bind_eq_ok.mp computed
      rw [List.forall_mem_cons] at each
      rw [bucketCountOf_eq, List.map_cons, List.sum_cons] at within
      refine .cons ⟨rfl, evaluated, each.1⟩ (ih ?_ each.2)
      rw [bucketCountOf_eq]
      omega

/-- The result of a node that is no pipeline is what the node evaluates to. -/
theorem evaluated_of_lookup {limits : Limits} {rowsFor : Node → List Row} {nodes : List Node}
    {built : Entries Result} (valid : Forest.validate nodes = .ok ())
    (level : Evaluated limits rowsFor nodes built) {node : Node} (hnode : node ∈ nodes)
    {result : Result} (found : built.lookup node.name = some result) :
    ¬ node.isPipeline ∧ evaluate limits (rowsFor node) node = .ok result ∧
      result.bucketCount ≤ limits.buckets := by
  obtain ⟨other, hother, same, evaluated⟩ := exists_related level (mem_of_lookup found)
  obtain ⟨hother, plain⟩ := List.mem_filter.mp hother
  obtain rfl := Forest.eq_of_name valid hother hnode same.symm
  exact ⟨by simpa using plain, evaluated⟩

/-- In the buckets that a node evaluates to, the levels are resolved one by one. -/
theorem resolved_of_evaluate [Memory] {limits : Limits} {rows : List Row} {node : Node}
    {method : Method} (checked : node.Checked method) {buckets : List Bucket}
    {otherCount : Option Nat}
    (evaluated : evaluate limits rows node = .ok (.buckets buckets otherCount)) {result : Result}
    (below : resolveBelow node (.buckets buckets otherCount) = .ok result) :
    ∃ resolved, result = .buckets resolved otherCount ∧
      List.Forall₂ (fun before after => after.key = before.key ∧ after.count = before.count ∧
        resolve node.children before.results = .ok after.results) buckets resolved := by
  obtain ⟨method, kept, named, -, made⟩ := evaluate_buckets_iff.mp evaluated
  have is : node.kind = .bucketing := by
    rw [← checked.kind, Option.some.inj (checked.named.symm.trans named)]
    rfl
  refine resolveBelow_buckets is ?_ below
  intro none bucket hbucket
  obtain ⟨candidate, -, -, -, empty⟩ := exists_related made hbucket
  rw [none] at empty
  exact (Except.ok.inj empty).symm

namespace Site

/-- What is known of a site in an answer. -/
structure Sound [Memory] (limits : Limits) (site : Site) : Prop where
  checked : ∃ method, site.node.Checked method
  below : Forest.validate site.node.children = .ok ()
  counted : site.count = site.rows.length
  /-- Buckets are those that the node evaluates to, and the levels inside them are resolved. -/
  resolved : ∀ buckets otherCount, site.result = .buckets buckets otherCount →
    ∃ built, evaluate limits site.rows site.node = .ok (.buckets built otherCount) ∧
      (Result.buckets built otherCount).bucketCount ≤ limits.buckets ∧
      List.Forall₂ (fun before after => after.key = before.key ∧ after.count = before.count ∧
        resolve site.node.children before.results = .ok after.results) built buckets

/-- The results of a level that is evaluated and resolved are sound. -/
theorem sound_of_level [Memory] {limits : Limits} {rowsFor : Node → List Row} {nodes : List Node}
    {built results : Entries Result} (valid : Forest.validate nodes = .ok ())
    (level : Evaluated limits rowsFor nodes built) (resolved : resolve nodes built = .ok results)
    {node : Node} (hnode : node ∈ nodes) {result : Result} (member : (node.name, result) ∈ results) :
    Sound limits ⟨node, rowsFor node, (rowsFor node).length, result⟩ := by
  obtain ⟨method, checked⟩ := Forest.checked_of_validate valid node hnode
  refine ⟨⟨method, checked⟩, Forest.below_of_validate valid node hnode, rfl, ?_⟩
  rintro buckets otherCount rfl
  obtain ⟨piped, pipelines, below⟩ := bind_eq_ok.mp resolved
  obtain ⟨other, hother, same, before, found, below⟩ := mem_resolveAllBelow below member
  obtain rfl := Forest.eq_of_name valid hother hnode same
  cases before with
  | value => cases (resolveBelow_of_not_buckets rfl).symm.trans below
  | series => cases (resolveBelow_of_not_buckets rfl).symm.trans below
  | buckets first firstCount =>
      have plain : ¬ other.isPipeline := fun is => by
        have never := buckets?_resolvePipelines pipelines fun result before =>
          absurd is (evaluated_of_lookup valid level hother before).1
        cases never _ found
      rw [lookup_resolvePipelines pipelines fun node member is same =>
        plain (Forest.eq_of_name valid member hother same ▸ is)] at found
      obtain ⟨-, evaluated, within⟩ := evaluated_of_lookup valid level hother found
      obtain ⟨after, same, resolved⟩ := resolved_of_evaluate checked evaluated below
      cases same
      exact ⟨first, evaluated, within, resolved⟩

theorem bucketCountOf_le {buckets : List Bucket} {otherCount : Option Nat} {bucket : Bucket}
    (member : bucket ∈ buckets) :
    bucketCountOf bucket.results ≤ (Result.buckets buckets otherCount).bucketCount := by
  rw [Result.bucketCount, bucketCountBelow_eq]
  have least := List.le_sum_of_mem
    (List.mem_map_of_mem (f := fun bucket : Bucket => bucketCountOf bucket.results) member)
  omega

section Bucket

variable [Memory] {limits : Limits} {site : Site} {buckets : List Bucket} {otherCount : Option Nat}
  {bucket : Bucket} (sound : site.Sound limits) (is : site.result = .buckets buckets otherCount)
  (member : bucket ∈ buckets)

include sound is member

/-- A bucket of a sound site is a candidate that was kept, with its level evaluated and resolved. -/
theorem candidate_of_bucket : ∃ method kept candidate built,
    Method.ofName? site.node.typeName = some (.bucketing method) ∧
      selectRows limits method site.node site.rows = .ok (kept, otherCount) ∧ candidate ∈ kept ∧
      bucket.key = candidate.key ∧ bucket.count = candidate.count ∧
      evaluateAll limits candidate.ids site.node.children = .ok built ∧
      bucketCountOf built ≤ limits.buckets ∧
      resolve site.node.children built = .ok bucket.results := by
  obtain ⟨built, evaluated, within, each⟩ := sound.resolved buckets otherCount is
  obtain ⟨before, hbefore, key, count, resolved⟩ := exists_related each member
  obtain ⟨method, kept, named, selected, made⟩ := evaluate_buckets_iff.mp evaluated
  obtain ⟨candidate, hcandidate, key', count', results⟩ := exists_related made hbefore
  exact ⟨method, kept, candidate, before.results, named, selected, hcandidate, key.trans key',
    count.trans count', results, (bucketCountOf_le hbefore).trans within, resolved⟩

/-- A bucket of a sound site counts the rows of its key, and its results are those of a level that
is evaluated over these rows and resolved. -/
theorem level_of_bucket :
    bucket.count = (site.rowsOf bucket.key).length ∧
      ∃ built, evaluateAll limits (site.rowsOf bucket.key) site.node.children = .ok built ∧
        bucketCountOf built ≤ limits.buckets ∧
        resolve site.node.children built = .ok bucket.results := by
  obtain ⟨method, kept, candidate, built, named, selected, hcandidate, key, count, results, within,
    resolved⟩ := candidate_of_bucket sound is member
  have ids : candidate.ids = site.rowsOf bucket.key := by
    rw [ids_of_selectRows (childrenKnown_of_validate sound.below) named selected hcandidate, key,
      rowsOf]
  rw [Candidate.count, ids] at count
  rw [ids] at results
  exact ⟨count, built, results, within, resolved⟩

/-- A bucket of a sound site has a group. -/
theorem group_of_bucket : ∃ method grouping, ∃ group ∈ grouping.groups,
    Method.ofName? site.node.typeName = some (.bucketing method) ∧
      method.groupRows site.node limits site.rows = .ok grouping ∧ group.1 = bucket.key := by
  obtain ⟨method, kept, candidate, built, named, selected, hcandidate, key, -⟩ :=
    candidate_of_bucket sound is member
  obtain ⟨grouping, names, grouped, group, hgroup, measured⟩ :=
    group_of_selectRows (childrenKnown_of_validate sound.below) selected hcandidate
  obtain ⟨same, -⟩ := Selection.lookup_measured measured
  exact ⟨method, grouping, group, hgroup, named, grouped, (key.trans same).symm⟩

/-- A bucket of equal values has a row. -/
theorem row_of_bucket (named : Method.ofName? site.node.typeName = some (.bucketing .terms)) :
    ∃ row ∈ site.rows, site.node.keyOf? row = some bucket.key := by
  obtain ⟨method, grouping, group, hgroup, named', grouped, same⟩ := group_of_bucket sound is member
  cases named.symm.trans named'
  rw [← same]
  exact Bucketing.row_of_terms named grouped hgroup

end Bucket

/-- What lies in a bucket of a sound site is sound. -/
theorem sound_of_below [Memory] {limits : Limits} {site inner : Site} (sound : site.Sound limits)
    (step : Below site inner) : inner.Sound limits := by
  obtain ⟨is, member, hchild, hresult⟩ := step
  obtain ⟨count, built, evaluated, within, resolved⟩ := level_of_bucket sound is member
  rw [count]
  exact sound_of_level sound.below (evaluated_of_evaluateAll evaluated within) resolved hchild
    hresult

/-- What lies in a sound site at any depth is sound. -/
theorem sound_of_path [Memory] {limits : Limits} {site inner : Site} (sound : site.Sound limits)
    (path : Relation.ReflTransGen Below site inner) : inner.Sound limits := by
  induction path with
  | refl => exact sound
  | tail _ step ih => exact sound_of_below ih step

end Site

end Rollup
