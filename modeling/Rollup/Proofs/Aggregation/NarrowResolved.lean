import Rollup.Proofs.Aggregation.Narrow
import Rollup.Proofs.Aggregation.Published

/-! # Resolving forests with fewer nodes

A pipeline that is kept reads what it did before: its sibling has to be kept with it, and what it reads
of the sibling is left.
-/

namespace Rollup

open Forest

/-! ## What pipelines read -/

theorem value?_narrow (node : Node) (result : Result) :
    (node.narrow result).value? = result.value? := by
  cases result with
  | buckets buckets otherCount => rw [Node.narrow_buckets]; rfl
  | value => rw [Node.narrow_value]
  | series => rw [Node.narrow_series]

theorem siblingValues_narrow {node target : Node} {path : BucketsPath} {results table : Entries Result}
    {before : Result} (found : results.lookup path.sibling = some before)
    (found' : table.lookup path.sibling = some (target.narrow before))
    (distinct : (target.children.map (·.name)).Nodup)
    (inside : ∀ inner, path.target = .metric inner →
      ∃ child ∈ target.children, child.name = inner.name) :
    siblingValues node path table = siblingValues node path results := by
  have metric (inner : PropertyPath) (asks : path.target = .metric inner) (bucket : Bucket) :
      ((Forest.narrow target.children bucket.results).lookup inner.name).bind Result.value? =
        (bucket.results.lookup inner.name).bind Result.value? := by
    obtain ⟨child, member, named⟩ := inside inner asks
    rw [← named, lookup_narrow distinct member]
    cases bucket.results.lookup child.name with
    | none => rfl
    | some result => exact value?_narrow child result
  unfold siblingValues
  rw [found, found']
  cases before with
  | value => rw [Node.narrow_value]
  | series => rw [Node.narrow_series]
  | buckets buckets otherCount =>
      rw [Node.narrow_buckets]
      cases asks : path.target with
      | itself property =>
          cases property with
          | none => simp only [List.map_map, Function.comp_def]
          | some property => rfl
      | count => simp only [List.map_map, Function.comp_def]
      | metric inner =>
          simp only [List.map_map, Function.comp_def, bind, ← Option.bind_assoc, metric inner asks]

/-- What stands for the nodes of a level that is left, as far as they are resolved, is what is left of
what stood for them. -/
def Carried (nodes earlier : List Node) (piped table : Entries Result) : Prop :=
  ∀ node ∈ nodes, (node.isPipeline → node ∈ earlier) →
    ∃ before, piped.lookup node.name = some before ∧
      table.lookup node.name = some (node.narrow before)

/-- One more node is resolved when its result is set. -/
theorem Carried.set {nodes earlier : List Node} {piped table : Entries Result}
    (carried : Carried nodes earlier piped table) (valid : Forest.validate nodes = .ok ()) {node : Node}
    (member : node ∈ nodes) {result : Result} (found : piped.lookup node.name = some result)
    (whole : node.narrow result = result) :
    Carried nodes (node :: earlier) piped (Entries.set table node.name result) := by
  intro other hother resolved
  rw [Entries.lookup_set]
  by_cases same : other.name = node.name
  · obtain rfl := eq_of_name valid hother member same
    exact ⟨result, found, by rw [if_pos rfl, whole]⟩
  · rw [if_neg same]
    exact carried other hother fun is =>
      (List.mem_cons.mp (resolved is)).resolve_left fun h => same (h ▸ rfl)

section Level

variable [Memory] {limits : Limits} {rows : List Row} {nodes nodes' : List Node}
  {built piped results : Entries Result} (reduces : Reduces nodes nodes')
  (valid : Forest.validate nodes = .ok ()) (valid' : Forest.validate nodes' = .ok ())

include reduces valid valid'

theorem carried_narrow (evaluated : evaluateAll limits rows nodes = .ok built)
    (pipelines : resolvePipelines nodes built = .ok piped) :
    Carried nodes' [] piped (Forest.narrow nodes' built) := by
  intro node' member' plain
  obtain ⟨node, member, kept⟩ := reduces.kept node' member'
  have plain : ¬ node.isPipeline := fun is => by
    rw [← kept.isPipeline] at is
    cases plain is
  obtain ⟨before, found, stands⟩ := standing_of_resolvePipelines valid evaluated pipelines member
  cases stands with
  | pipeline is => exact absurd is plain
  | built _ found' _ =>
      refine ⟨before, by rw [kept.name, found], ?_⟩
      rw [lookup_narrow (names_of_validate valid') member', kept.name, found']
      rfl

/-- A pipeline that is left has the result that it had. -/
theorem carried_pipeline (pipelines : resolvePipelines nodes built = .ok piped)
    {earlier : List Node} {ancestors sequences : List String} {table : Entries Result}
    (before : earlier ⊆ nodes') (carried : Carried nodes' earlier piped table) {node : Node}
    (member' : node ∈ nodes') (is : node.isPipeline)
    (accepted : validateDependency nodes' ancestors earlier sequences node = .ok ()) :
    ∃ result, resolvePipeline table node = .ok (Entries.set table node.name result) ∧
      Carried nodes' (node :: earlier) piped (Entries.set table node.name result) := by
  obtain ⟨first, member, kept⟩ := reduces.kept node member'
  obtain ⟨method, checked⟩ := checked_of_validate valid first member
  obtain ⟨pipeline', checked'⟩ := pipeline_of_validate valid' member' is
  obtain rfl := kept.eq_of_leaf checked checked' (by rw [← kept.kind, ← checked'.kind]; nofun)
  obtain ⟨old, path, promised⟩ := promised_of_validate valid member is
  obtain ⟨pipeline, input, result, computed, found⟩ :=
    computed_of_resolvePipelines valid member is pipelines promised
  obtain ⟨target, path', reads, -, allowed⟩ := allowed_of_validateDependency accepted
  obtain rfl := Except.ok.inj (computed.asked.symm.trans reads.asked)
  -- The sibling is left, for the forest that is left is accepted too.
  obtain ⟨sibling, known, known'⟩ := carried target reads.member
    (resolved_of_allowed valid' before reads allowed)
  rw [reads.name] at known known'
  have read : siblingValues node path table = .ok input := by
    rw [siblingValues_narrow known known'
      (names_of_validate (below_of_validate valid' target reads.member)), computed.read]
    intro inner asks
    obtain ⟨other, hother, same, inside, -⟩ := checks_of_validateDependency accepted reads.asked
    obtain rfl := eq_of_name valid' hother reads.member (same.trans reads.name.symm)
    obtain ⟨shape, shaped, -⟩ := inside inner asks
    obtain ⟨child, hchild, named, -⟩ := metric_of_metricShape? shaped
    exact ⟨child, hchild, named⟩
  exact ⟨result, resolvePipeline_of_compute computed.named computed.asked read computed.computed,
    carried.set valid' member' found (narrow_of_not_buckets (buckets?_of_compute computed.computed))⟩

theorem carried_resolvePipelines (pipelines : resolvePipelines nodes built = .ok piped)
    {earlier rest : List Node} {ancestors sequences : List String} {table : Entries Result}
    (split : nodes' = earlier.reverse ++ rest) (carried : Carried nodes' earlier piped table)
    (accepted : validatePipelines nodes' ancestors earlier sequences rest = .ok ()) :
    ∃ final, resolvePipelines rest table = .ok final ∧ Carried nodes' nodes' piped final := by
  unfold resolvePipelines
  induction rest generalizing earlier sequences table with
  | nil =>
      refine ⟨table, rfl, fun node member _ => carried node member fun _ => ?_⟩
      simpa [split] using member
  | cons node rest ih =>
      have split' : nodes' = (node :: earlier).reverse ++ rest := by simp [split]
      rw [validatePipelines] at accepted
      by_cases is : node.isPipeline
      · rw [if_pos is] at accepted
        obtain ⟨checked, accepted⟩ := check_eq_ok.mp accepted
        obtain ⟨result, resolved, carried⟩ := carried_pipeline reduces valid valid' pipelines
          (fun other member => by simp [split, member]) carried (by simp [split]) is checked
        rw [List.filter_cons_of_pos is, List.foldlM_cons, resolved]
        exact ih split' carried accepted
      · rw [if_neg is] at accepted
        rw [List.filter_cons_of_neg is]
        refine ih split' (fun other member resolved => carried other member fun pipes => ?_) accepted
        exact (List.mem_cons.mp (resolved pipes)).resolve_left fun h => is (h ▸ pipes)

end Level

/-! ## Levels below -/

/-- Buckets are resolved where the levels inside them are. -/
theorem resolveBelow_of_buckets [Memory] {node : Node} {buckets resolved : List Bucket}
    {otherCount : Option Nat} (is : node.kind = .bucketing)
    (bare : node.children = [] → ∀ bucket ∈ buckets, bucket.results = [])
    (each : List.Forall₂ (fun before after => after.key = before.key ∧ after.count = before.count ∧
      resolve node.children before.results = .ok after.results) buckets resolved) :
    resolveBelow node (.buckets buckets otherCount) = .ok (.buckets resolved otherCount) := by
  obtain ⟨name, typeName, kind, field, params, children⟩ := node
  rw [resolveBelow]
  by_cases leaf : children = []
  · subst leaf
    have same : buckets = resolved := by
      refine List.forall₂_eq_eq_eq ▸ ((List.forall₂_and_left _ _).mpr ⟨bare rfl, each⟩).imp ?_
      rintro ⟨key, count, results⟩ ⟨_, _, _⟩ ⟨rfl, rfl, rfl, resolved⟩
      cases resolved
      rfl
    rw [if_neg (by simp), same]
    rfl
  · rw [if_pos ⟨is, by simpa using leaf⟩]
    refine bind_eq_ok.mpr ⟨resolved, mapM_eq_ok.mpr (each.imp ?_), rfl⟩
    rintro before ⟨_, _, results⟩ ⟨rfl, rfl, resolved⟩
    obtain ⟨piped, pipelines, below⟩ := bind_eq_ok.mp resolved
    exact bind_eq_ok.mpr ⟨piped, pipelines, bind_eq_ok.mpr ⟨results, below, rfl⟩⟩

theorem resolveBelow_kept [Memory] {limits : Limits} {rows : List Row} {node node' : Node}
    (kept : Kept node node') {method : Method} (checked : node.Checked method)
    (below : ∀ rows built results, evaluateAll limits rows node.children = .ok built →
      resolve node.children built = .ok results →
      resolve node'.children (Forest.narrow node'.children built) =
        .ok (Forest.narrow node'.children results)) {level : Entries Result} {before after : Result}
    (stands : Standing limits rows level node before) (resolved : resolveBelow node before = .ok after) :
    resolveBelow node' (node'.narrow before) = .ok (node'.narrow after) := by
  have unchanged (plain : before.buckets? = none) :
      resolveBelow node' (node'.narrow before) = .ok (node'.narrow after) := by
    cases (resolveBelow_of_not_buckets plain).symm.trans resolved
    rw [narrow_of_not_buckets plain, resolveBelow_of_not_buckets plain]
  cases stands with
  | pipeline _ plain => exact unchanged plain
  | built _ _ computed =>
      rcases result_of_evaluate checked.named computed with
        ⟨is, buckets, otherCount, rfl⟩ | ⟨-, value, rfl⟩
      · obtain ⟨inside, rfl, each⟩ := resolved_of_evaluate checked computed resolved
        obtain ⟨bucketing, candidates, -, -, made⟩ := evaluate_buckets_iff.mp computed
        rw [Node.narrow_buckets, Node.narrow_buckets]
        refine resolveBelow_of_buckets (kept.kind.trans (checked.kind.symm.trans is)) ?_ ?_
        · intro leaf bucket member
          obtain ⟨bucket, -, rfl⟩ := List.mem_map.mp member
          rw [leaf, Forest.narrow]
        · rw [List.forall₂_map_left_iff, List.forall₂_map_right_iff]
          have known : ∀ bucket ∈ buckets,
              ∃ rows, evaluateAll limits rows node.children = .ok bucket.results := by
            intro bucket member
            obtain ⟨candidate, -, -, -, evaluated⟩ := exists_related made member
            exact ⟨_, evaluated⟩
          refine ((List.forall₂_and_left _ _).mpr ⟨known, each⟩).imp ?_
          rintro first second ⟨⟨rows, evaluated⟩, key, count, resolved⟩
          exact ⟨key, count, below rows _ _ evaluated resolved⟩
      · exact unchanged rfl

/-- A forest that is left resolves to what is left of the resolved results. -/
theorem resolve_reduced [Memory] (limits : Limits) (nodes' : List Node) :
    ∀ {nodes : List Node}, Reduces nodes nodes' → Forest.validate nodes = .ok () →
      Forest.validate nodes' = .ok () → ∀ rows built results,
      evaluateAll limits rows nodes = .ok built → resolve nodes built = .ok results →
      resolve nodes' (Forest.narrow nodes' built) = .ok (Forest.narrow nodes' results) := by
  induction nodes' using induction_below with
  | level nodes' below =>
      intro nodes reduces valid valid' rows built results evaluated resolved
      obtain ⟨piped, pipelines, inner⟩ := bind_eq_ok.mp resolved
      have accepted := (check_eq_ok.mp (validate_eq_ok.mp valid').1).2
      have unresolved : nodes' = [].reverse ++ nodes' := rfl
      obtain ⟨table, pipelines', carried⟩ := carried_resolvePipelines reduces valid valid' pipelines
        unresolved (carried_narrow reduces valid valid' evaluated pipelines) accepted
      refine bind_eq_ok.mpr ⟨table, pipelines', ?_⟩
      suffices all : ∀ rest ⊆ nodes',
          resolveAllBelow table rest = .ok (Forest.narrow rest results) from all nodes' fun _ => id
      intro rest within
      induction rest with
      | nil =>
          rw [resolveAllBelow, Forest.narrow]
          rfl
      | cons node' rest ih =>
          obtain ⟨member', within⟩ := List.cons_subset.mp within
          obtain ⟨node, member, kept⟩ := reduces.kept node' member'
          obtain ⟨method, checked⟩ := checked_of_validate valid node member
          obtain ⟨before, after, found, stands, below_node, final⟩ :=
            lookup_of_resolve valid evaluated pipelines inner member
          obtain ⟨before', found', table_found⟩ := carried node' member' fun _ => member'
          rw [kept.name] at found'
          obtain rfl := Option.some.inj (found'.symm.trans found)
          have resolved' := resolveBelow_kept kept checked
            (below node' member' kept.children (below_of_validate valid node member)
              (below_of_validate valid' node' member')) stands below_node
          rw [resolveAllBelow, Forest.narrow, table_found, kept.name, final]
          exact bind_eq_ok.mpr ⟨_, resolved', bind_eq_ok.mpr ⟨_, ih within, rfl⟩⟩

end Rollup
