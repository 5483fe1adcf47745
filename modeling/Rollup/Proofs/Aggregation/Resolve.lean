import Rollup.Aggregation.Resolve
import Rollup.Proofs.Aggregation.Validation
import Rollup.Proofs.Lookup

/-! # What resolving changes

Pipelines are added to a level and change nothing that stands there under another name. Below a
level, each bucket keeps its key and its count, and its results are resolved by the same rule.
-/

namespace Rollup

variable [Memory]

/-! ## Pipelines of a level -/

/-- A moving average asks for more numbers in its window than memory can be set aside for. -/
structure Node.Overreaches (node : Node) : Prop where
  is : node.isPipeline
  named : Method.ofName? node.typeName = some (.pipeline .movingAvg)
  beyond : ∃ window, Pipeline.windowOf node = .ok window ∧ Memory.room < window

theorem buckets?_of_compute {pipeline : Pipeline} {node : Node} {input : SiblingValues}
    {result : Result} (h : pipeline.compute node input = .ok result) : result.buckets? = none := by
  have series {f} (h : Pipeline.overSequence node input f = .ok result) : result.buckets? = none := by
    unfold Pipeline.overSequence at h
    cases input with
    | scalar value => cases h
    | sequence values =>
        obtain ⟨policy, -, h⟩ := bind_eq_ok.mp h
        cases h
        rfl
  cases pipeline with
  | derivative => exact series h
  | cumulativeSum =>
      cases input with
      | scalar value =>
          cases h
          rfl
      | sequence values => exact series h
  | movingAvg =>
      obtain ⟨window, -, h⟩ := bind_eq_ok.mp h
      exact series (check_eq_ok.mp h).2
  | reduce reducer =>
      cases input with
      | scalar value =>
          cases h
          rfl
      | sequence values =>
          obtain ⟨policy, -, h⟩ := bind_eq_ok.mp h
          cases h
          rfl

theorem resolvePipeline_eq_ok {results results' : Entries Result} {node : Node}
    (h : resolvePipeline results node = .ok results') :
    results' = results ∨
      ∃ result, result.buckets? = none ∧ results' = Entries.set results node.name result := by
  obtain ⟨method, -, h⟩ := bind_eq_ok.mp h
  cases method with
  | pipeline pipeline =>
      obtain ⟨path, -, h⟩ := bind_eq_ok.mp h
      obtain ⟨input, -, h⟩ := bind_eq_ok.mp h
      obtain ⟨result, computed, h⟩ := bind_eq_ok.mp h
      cases h
      exact .inr ⟨result, buckets?_of_compute computed, rfl⟩
  | _ =>
      cases h
      exact .inl rfl

/-- Resolving pipelines leaves everything else on a level as it is. -/
theorem lookup_resolvePipelines {nodes : List Node} {results results' : Entries Result}
    (h : resolvePipelines nodes results = .ok results') {name : String}
    (other : ∀ node ∈ nodes, node.isPipeline → node.name ≠ name) :
    results'.lookup name = results.lookup name := by
  refine foldlM_invariant (P := fun r => r.lookup name = results.lookup name) ?_ rfl h
  intro node member r r' same step
  obtain ⟨hnode, is⟩ := List.mem_filter.mp member
  rcases resolvePipeline_eq_ok step with rfl | ⟨result, -, rfl⟩
  · exact same
  · rw [Entries.lookup_set, if_neg (Ne.symm (other node hnode is)), same]

/-- The result of a pipeline is no list of buckets. -/
theorem buckets?_resolvePipelines {nodes : List Node} {results results' : Entries Result}
    (h : resolvePipelines nodes results = .ok results') {name : String}
    (before : ∀ result, results.lookup name = some result → result.buckets? = none) :
    ∀ result, results'.lookup name = some result → result.buckets? = none := by
  refine foldlM_invariant
    (P := fun r => ∀ result, r.lookup name = some result → result.buckets? = none) ?_ before h
  intro node member r r' so step result found
  rcases resolvePipeline_eq_ok step with rfl | ⟨added, plain, rfl⟩
  · exact so result found
  · rw [Entries.lookup_set] at found
    split at found
    · cases found
      exact plain
    · exact so result found

/-! ## Levels below -/

theorem mem_resolveAllBelow {nodes : List Node} {results final : Entries Result}
    (h : resolveAllBelow results nodes = .ok final) {name : String} {result : Result}
    (member : (name, result) ∈ final) :
    ∃ node ∈ nodes, node.name = name ∧ ∃ before, results.lookup name = some before ∧
      resolveBelow node before = .ok result := by
  induction nodes generalizing final with
  | nil =>
      cases h
      cases member
  | cons node nodes ih =>
      rw [resolveAllBelow] at h
      cases found : results.lookup node.name with
      | none =>
          rw [found] at h
          obtain ⟨other, hother, rest⟩ := ih h member
          exact ⟨other, List.mem_cons_of_mem _ hother, rest⟩
      | some before =>
          rw [found] at h
          obtain ⟨after, resolved, h⟩ := bind_eq_ok.mp h
          obtain ⟨others, below, ⟨⟩⟩ := bind_eq_ok.mp h
          rcases List.mem_cons.mp member with same | later
          · cases same
            exact ⟨node, List.mem_cons_self, rfl, before, found, resolved⟩
          · obtain ⟨other, hother, rest⟩ := ih below later
            exact ⟨other, List.mem_cons_of_mem _ hother, rest⟩

theorem resolveBelow_buckets {node : Node} {buckets : List Bucket} {otherCount : Option Nat}
    {result : Result} (is : node.kind = .bucketing)
    (bare : node.children = [] → ∀ bucket ∈ buckets, bucket.results = [])
    (h : resolveBelow node (.buckets buckets otherCount) = .ok result) :
    ∃ resolved, result = .buckets resolved otherCount ∧
      List.Forall₂ (fun before after => after.key = before.key ∧ after.count = before.count ∧
        resolve node.children before.results = .ok after.results) buckets resolved := by
  obtain ⟨name, typeName, kind, field, params, children⟩ := node
  rw [resolveBelow] at h
  split at h
  · obtain ⟨resolved, each, h⟩ := bind_eq_ok.mp h
    cases h
    refine ⟨resolved, rfl, (mapM_eq_ok.mp each).imp ?_⟩
    intro before after h
    obtain ⟨results, pipelines, h⟩ := bind_eq_ok.mp h
    obtain ⟨final, below, ⟨⟩⟩ := bind_eq_ok.mp h
    exact ⟨rfl, rfl, bind_eq_ok.mpr ⟨results, pipelines, below⟩⟩
  · cases h
    refine ⟨buckets, rfl, List.forall₂_same.mpr fun bucket member => ⟨rfl, rfl, ?_⟩⟩
    have leaf : children = [] := by
      by_contra some
      simp_all
    rw [bare leaf bucket member]
    subst leaf
    rfl

theorem resolveBelow_of_not_buckets {node : Node} {result : Result}
    (not : result.buckets? = none) : resolveBelow node result = .ok result := by
  obtain ⟨name, typeName, kind, field, params, children⟩ := node
  cases result with
  | buckets => cases not
  | _ =>
      rw [resolveBelow]
      · rfl
      · nofun

end Rollup
