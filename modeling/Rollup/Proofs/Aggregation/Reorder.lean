import Rollup.Proofs.Aggregation.Evaluate
import Rollup.Proofs.Aggregation.Failures
import Rollup.Proofs.Aggregation.Order
import Rollup.Proofs.Bucketing.Reorder

/-! # Evaluating rows in another order

Counting values and sorting them does not depend on the order of rows, and neither does anything
that is built of such metrics: groups have the same keys and sizes, so the same buckets are kept.
-/

namespace Rollup

/-! ## Metrics -/

theorem nodup_eraseDups {α : Type} [BEq α] [LawfulBEq α] (xs : List α) : xs.eraseDups.Nodup := by
  cases xs with
  | nil => simp
  | cons x xs =>
      rw [List.eraseDups_cons, List.nodup_cons]
      exact ⟨by simp, nodup_eraseDups (xs.filter fun y => !(y == x))⟩
termination_by xs.length
decreasing_by exact Nat.lt_succ_of_le (List.length_filter_le _ _)

/-- There are as many distinct items as there are in a list of the same items without duplicates. -/
theorem length_eraseDups {α : Type} [BEq α] [LawfulBEq α] {xs ys : List α} (distinct : ys.Nodup)
    (same : ∀ x, x ∈ xs ↔ x ∈ ys) : xs.eraseDups.length = ys.length := by
  refine List.Perm.length_eq ((List.perm_ext_iff_of_nodup (nodup_eraseDups xs) distinct).mpr ?_)
  intro x
  rw [List.mem_eraseDups, same]

theorem length_eraseDups_perm {α : Type} [BEq α] [LawfulBEq α] {xs ys : List α} (perm : xs.Perm ys) :
    xs.eraseDups.length = ys.eraseDups.length := by
  refine length_eraseDups (nodup_eraseDups ys) fun x => ?_
  rw [List.mem_eraseDups, perm.mem_iff]

theorem Percentiles.ofValues_perm {values values' : List Float} (perm : values.Perm values')
    (percents : List Float) : ofValues values percents = ofValues values' percents := by
  -- The order tells any two bit patterns apart, so there is one ascending list of the values.
  have same : values.mergeSort (fun x y => (Binary64.compareTotal x y).isLE) =
      values'.mergeSort fun x y => (Binary64.compareTotal x y).isLE := by
    refine List.Perm.eq_of_pairwise ?_ (Binary64.pairwise_rank values) (Binary64.pairwise_rank values')
      ((List.mergeSort_perm _ _).trans (perm.trans (List.mergeSort_perm _ _).symm))
    intro x y _ _ le ge
    exact Binary64.rank_injective (le_antisymm le ge)
  rw [ofValues, ofValues, same]

namespace Metric

variable {node : Node} {set set' : RowSet} (perm : set.toList.Perm set'.toList)

include perm

/-- What is computed of the values of a column, in any order, can be computed of rows in another
order. -/
theorem column_perm {α : Type} {R : α → α → Prop}
    {f : String → List (Fin set.rows.size × Json) → Except Error α}
    {g : String → List (Fin set'.rows.size × Json) → Except Error α}
    (alike : ∀ field values values', (values.map (·.2)).Perm (values'.map (·.2)) → ∀ a,
      f field values = .ok a → ∃ a', g field values' = .ok a' ∧ R a a') {a : α}
    (h : (node.requireField >>= fun field => set.column node.name field >>= f field) = .ok a) :
    ∃ a', (node.requireField >>= fun field => set'.column node.name field >>= g field) = .ok a' ∧
      R a a' := by
  obtain ⟨field, required, h⟩ := bind_eq_ok.mp h
  obtain ⟨values, read, h⟩ := bind_eq_ok.mp h
  have cells : set.toList.mapM (cell node.name field) = .ok (values.map Prod.snd) := by
    rw [← RowSet.column_values]
    exact map_eq_ok.mpr ⟨values, read, rfl⟩
  obtain ⟨cells', read', reordered⟩ := mapM_perm perm cells
  rw [← RowSet.column_values, map_eq_ok] at read'
  obtain ⟨values', read', rfl⟩ := read'
  obtain ⟨a', computed, related⟩ := alike field values values' reordered a h
  exact ⟨a', bind_eq_ok.mpr ⟨field, required, bind_eq_ok.mpr ⟨values', read', computed⟩⟩, related⟩

theorem numbers_perm {numbers : List Float} (h : Metric.numbers node set = .ok numbers) :
    ∃ numbers', Metric.numbers node set' = .ok numbers' ∧ numbers.Perm numbers' := by
  refine column_perm perm (fun field values values' alike numbers h => ?_) h
  refine bind_mapM_perm alike ?_ (fun read read' reordered numbers h => ?_) h
  · rintro ⟨_, value⟩ ⟨_, _⟩ rfl
    rfl
  · obtain rfl := Except.ok.inj h
    exact ⟨_, rfl, reordered.filterMap id⟩

theorem countValues_perm {count : Nat} (h : countValues node set = .ok count) :
    countValues node set' = .ok count := by
  suffices found : ∃ count', countValues node set' = .ok count' ∧ count = count' by
    obtain ⟨_, h', rfl⟩ := found
    exact h'
  refine column_perm perm (fun field values values' alike count h => ?_) h
  obtain rfl := Except.ok.inj h
  have kept := (alike.filter fun value => !value.isNull).length_eq
  simp only [List.filter_map, List.length_map] at kept
  exact ⟨_, rfl, kept⟩

theorem countDistinct_perm {count : Nat} (h : countDistinct node set = .ok count) :
    countDistinct node set' = .ok count := by
  suffices found : ∃ count', countDistinct node set' = .ok count' ∧ count = count' by
    obtain ⟨_, h', rfl⟩ := found
    exact h'
  refine column_perm perm (fun field values values' alike count h => ?_) h
  refine bind_mapM_perm alike ?_ (fun keys keys' reordered count h => ?_) h
  · rintro ⟨_, value⟩ ⟨_, _⟩ rfl
    rfl
  · obtain rfl := Except.ok.inj h
    exact ⟨_, rfl, length_eraseDups_perm (reordered.filter _)⟩

/-- A metric that counts values or sorts them does not depend on the order of rows. -/
theorem compute_perm {metric : Metric} (counts : metric ∈ [valueCount, cardinality, percentiles])
    {value : Value} (h : metric.compute node set = .ok value) :
    metric.compute node set' = .ok value := by
  cases metric with
  | valueCount =>
      obtain ⟨count, counted, h⟩ := bind_eq_ok.mp h
      exact bind_eq_ok.mpr ⟨count, countValues_perm perm counted, h⟩
  | cardinality =>
      obtain ⟨count, counted, h⟩ := bind_eq_ok.mp h
      exact bind_eq_ok.mpr ⟨count, countDistinct_perm perm counted, h⟩
  | percentiles =>
      obtain ⟨values, read, h⟩ := bind_eq_ok.mp h
      obtain ⟨percents, asked, h⟩ := bind_eq_ok.mp h
      obtain ⟨values', read', reordered⟩ := numbers_perm perm read
      rw [Percentiles.ofValues_perm reordered] at h
      exact bind_eq_ok.mpr ⟨values', read', bind_eq_ok.mpr ⟨percents, asked, h⟩⟩
  | _ => simp at counts

end Metric

theorem Metric.ofRows_perm {metric : Metric}
    (counts : metric ∈ [valueCount, cardinality, percentiles]) {node : Node} {rows rows' : List Row}
    (perm : rows.Perm rows') {value : Value} (h : metric.ofRows node rows = .ok value) :
    metric.ofRows node rows' = .ok value := by
  refine compute_perm ?_ counts h
  rwa [RowSet.toList_all, RowSet.toList_all]

/-- The metrics of a forest only count values or sort them. -/
def Forest.Unordered (nodes : List Node) : Prop :=
  ∀ node, Holds nodes node → ∀ metric, Method.ofName? node.typeName = some (.metric metric) →
    metric ∈ [Metric.valueCount, .cardinality, .percentiles]

theorem Forest.Unordered.below {nodes : List Node} (unordered : Unordered nodes) {node : Node}
    (member : node ∈ nodes) : Unordered node.children :=
  fun _ holds => unordered _ (.under member holds)

/-! ## Selecting buckets -/

theorem forall₂_mergeSort {α β : Type} {R : α → β → Prop} {le : α → α → Bool} {le' : β → β → Bool}
    (alike : ∀ a b a' b', R a a' → R b b' → le a b = le' a' b') {xs : List α} {ys : List β}
    (related : List.Forall₂ R xs ys) : List.Forall₂ R (xs.mergeSort le) (ys.mergeSort le') := by
  -- Both lists are projections of one list of related pairs, which is sorted once.
  obtain ⟨pairs, rfl, rfl⟩ : ∃ pairs : List { pair : α × β // R pair.1 pair.2 },
      xs = pairs.map (·.1.1) ∧ ys = pairs.map (·.1.2) := by
    induction related with
    | nil => exact ⟨[], rfl, rfl⟩
    | cons first rest ih =>
        obtain ⟨pairs, rfl, rfl⟩ := ih
        exact ⟨⟨(_, _), first⟩ :: pairs, rfl, rfl⟩
  rw [← List.map_mergeSort (r := fun a b => le a.1.1 b.1.1) fun _ _ _ _ => rfl,
    ← List.map_mergeSort (r := fun a b => le a.1.1 b.1.1) fun a _ b _ => alike _ _ _ _ a.2 b.2,
    List.forall₂_map_left_iff, List.forall₂_map_right_iff]
  exact List.forall₂_same.mpr fun pair _ => pair.2

/-- Two candidates with the same rows, perhaps in another order. -/
structure SameCandidate {ι : Type} (candidate candidate' : Candidate ι) : Prop where
  key : candidate'.key = candidate.key
  rows : candidate.ids.Perm candidate'.ids
  metrics : candidate'.metrics = candidate.metrics

namespace SameCandidate

variable {ι : Type} {candidate candidate' : Candidate ι}

theorem count (same : SameCandidate candidate candidate') : candidate'.count = candidate.count :=
  same.rows.length_eq.symm

theorem seen (same : SameCandidate candidate candidate') : candidate'.seen = candidate.seen := by
  unfold Candidate.seen Candidate.number?
  rw [same.key, same.count, same.metrics]

end SameCandidate

namespace Selection

variable {node : Node}

theorem cut_same (order : BucketOrder) (size : Option Nat) (folded : Nat)
    {candidates candidates' : List (Candidate Row)}
    (same : List.Forall₂ SameCandidate candidates candidates') :
    (cut order size folded candidates').2 = (cut order size folded candidates).2 ∧
      List.Forall₂ SameCandidate (cut order size folded candidates).1
        (cut order size folded candidates').1 := by
  have sorted : List.Forall₂ SameCandidate (sorted order candidates) (sorted order candidates') := by
    refine forall₂_mergeSort (fun a b a' b' first second => ?_) same
    rw [compare_eq_compareSeen, compare_eq_compareSeen, first.seen, second.seen]
  rw [cut_eq, cut_eq]
  cases size with
  | none => exact ⟨rfl, sorted⟩
  | some size =>
      have dropped := List.forall₂_drop size sorted
      have counts := map_eq_of_related dropped fun _ _ same => same.count
      have some_cut (rest : List (Candidate Row)) : rest ≠ [] ↔ rest.map Candidate.count ≠ [] := by
        simp
      refine ⟨?_, List.forall₂_take size sorted⟩
      simp only [Option.elim_some, some_cut, counts]

variable (unordered : ∀ child ∈ node.children, ∀ metric,
  Method.ofName? child.typeName = some (.metric metric) →
    metric ∈ [Metric.valueCount, .cardinality, .percentiles])

include unordered

theorem measure_same {candidate candidate' : Candidate Row} (same : SameCandidate candidate candidate')
    {name : String} {measured : Candidate Row}
    (h : measure Metric.ofRows node candidate name = .ok measured) :
    ∃ measured', measure Metric.ofRows node candidate' name = .ok measured' ∧
      SameCandidate measured measured' := by
  cases found : node.metricChild? name with
  | none =>
      rw [measure_of_none found] at h
      cases h
      exact ⟨candidate', measure_of_none found, same⟩
  | some pair =>
      obtain ⟨metric, child⟩ := pair
      obtain ⟨value, computed, rfl⟩ := (measure_eq_ok found).mp h
      obtain ⟨⟨member, -⟩, named⟩ := Node.of_metricChild? found
      have computed' := Metric.ofRows_perm (unordered child member metric named) same.rows computed
      refine ⟨_, (measure_eq_ok found).mpr ⟨value, computed', rfl⟩, same.key, same.rows, ?_⟩
      rw [same.metrics]

theorem measures_same {names : List String} {candidate candidate' : Candidate Row}
    (same : SameCandidate candidate candidate') {measured : Candidate Row}
    (h : names.foldlM (measure Metric.ofRows node) candidate = .ok measured) :
    ∃ measured', names.foldlM (measure Metric.ofRows node) candidate' = .ok measured' ∧
      SameCandidate measured measured' := by
  induction names generalizing candidate candidate' with
  | nil =>
      cases h
      exact ⟨candidate', rfl, same⟩
  | cons name names ih =>
      obtain ⟨middle, head, rest⟩ := bind_eq_ok.mp h
      obtain ⟨middle', head', same⟩ := measure_same unordered same head
      obtain ⟨measured', rest', same⟩ := ih same rest
      exact ⟨measured', bind_eq_ok.mpr ⟨middle', head', rest'⟩, same⟩

theorem groups_same {names : List String} {groups groups' : Groups Row}
    (same : List.Forall₂ SameGroup groups groups') {measured : List (Candidate Row)}
    (each : List.Forall₂ (fun group candidate =>
      names.foldlM (measure Metric.ofRows node) (.ofGroup group) = .ok candidate) groups measured) :
    ∃ measured', List.Forall₂ (fun group candidate =>
        names.foldlM (measure Metric.ofRows node) (.ofGroup group) = .ok candidate)
        groups' measured' ∧ List.Forall₂ SameCandidate measured measured' := by
  induction same generalizing measured with
  | nil =>
      cases each
      exact ⟨[], .nil, .nil⟩
  | cons first rest ih =>
      obtain _ | ⟨head, tail⟩ := each
      have candidates : SameCandidate (.ofGroup _) (.ofGroup _) := ⟨first.1, first.2, rfl⟩
      obtain ⟨candidate', head', same⟩ := measures_same unordered candidates head
      obtain ⟨measured', tail', others⟩ := ih tail
      exact ⟨candidate' :: measured', .cons head' tail', .cons same others⟩

end Selection

/-- Of rows in another order the same buckets are kept. -/
theorem selectRows_perm {limits : Limits} {method : Bucketing} {node : Node}
    (known : node.ChildrenKnown)
    (unordered : ∀ child ∈ node.children, ∀ metric,
      Method.ofName? child.typeName = some (.metric metric) →
        metric ∈ [Metric.valueCount, .cardinality, .percentiles])
    {rows rows' : List Row} (perm : rows.Perm rows') {kept : List (Candidate Row)}
    {other : Option Nat} (h : selectRows limits method node rows = .ok (kept, other)) :
    ∃ kept', selectRows limits method node rows' = .ok (kept', other) ∧
      List.Forall₂ SameCandidate kept kept' := by
  obtain ⟨order, size, grouping, measured, ordered, sized, grouped, each, last⟩ :=
    (selectRows_eq_ok known).mp h
  obtain ⟨grouping', grouped', folded, groups⟩ := Bucketing.groupRows_perm perm grouped
  obtain ⟨measured', each', same⟩ := Selection.groups_same unordered groups each
  have kept_same := Selection.cut_same (order.getD method.defaultOrder)
    (size <|> method.defaultSize limits) grouping.folded same
  rw [← last] at kept_same
  refine ⟨_, (selectRows_eq_ok known).mpr ⟨order, size, grouping', measured', ordered, sized,
    grouped', each', ?_⟩, kept_same.2⟩
  rw [folded]
  exact Prod.ext rfl kept_same.1.symm

/-! ## Evaluating -/

mutual

theorem evaluate_perm (limits : Limits) : ∀ (node : Node) (rows rows' : List Row) (result : Result),
    rows.Perm rows' → Forest.validate node.children = .ok () → Forest.Unordered [node] →
      evaluate limits rows node = .ok result → evaluate limits rows' node = .ok result
  | ⟨name, typeName, kind, field, params, children⟩, rows, rows', result, perm, valid, unordered,
      evaluated => by
      obtain ⟨method, found, -⟩ := bind_eq_ok.mp ((evaluate.eq_1 ..).symm.trans evaluated)
      have named := Method.find_eq_ok.mp found
      cases method with
      | metric metric =>
          obtain ⟨value, computed, same⟩ := (evaluate_metric_iff named).mp evaluated
          have counts := unordered _ (.top List.mem_cons_self) metric named
          exact (evaluate_metric_iff named).mpr ⟨value, Metric.ofRows_perm counts perm computed, same⟩
      | pipeline pipeline =>
          rcases result_of_evaluate named evaluated with ⟨is, -⟩ | ⟨is, -⟩ <;> cases is
      | bucketing method =>
          obtain ⟨-, buckets, otherCount, rfl⟩ :=
            (result_of_evaluate named evaluated).resolve_right fun ⟨is, _⟩ => by cases is
          obtain ⟨method, kept, named, selected, made⟩ := evaluate_buckets_iff.mp evaluated
          have below := unordered.below List.mem_cons_self
          obtain ⟨kept', selected', same⟩ := selectRows_perm (childrenKnown_of_validate valid)
            (fun child member => below child (.top member)) perm selected
          refine evaluate_buckets_iff.mpr ⟨method, kept', named, selected', ?_⟩
          refine (forall₂_exists_iff.mp ⟨kept, same.flip, made⟩).imp ?_
          rintro candidate' bucket ⟨candidate, same, key, count, results⟩
          refine ⟨key.trans same.key.symm, count.trans same.count.symm, ?_⟩
          exact evaluateAll_perm limits children candidate.ids candidate'.ids bucket.results same.rows
            (Forest.below_of_validate valid) below results

theorem evaluateAll_perm (limits : Limits) : ∀ (nodes : List Node) (rows rows' : List Row)
    (results : Entries Result), rows.Perm rows' →
      (∀ node ∈ nodes, Forest.validate node.children = .ok ()) → Forest.Unordered nodes →
      evaluateAll limits rows nodes = .ok results → evaluateAll limits rows' nodes = .ok results
  | [], rows, rows', results, perm, valid, unordered, evaluated => evaluated
  | node :: nodes, rows, rows', results, perm, valid, unordered, evaluated => by
      rw [List.forall_mem_cons] at valid
      have rest (results : Entries Result) :=
        evaluateAll_perm limits nodes rows rows' results perm valid.2
          fun node holds => unordered node (holds.grow (List.subset_cons_self _ _))
      rw [evaluateAll] at evaluated ⊢
      split at evaluated
      · rename_i is
        rw [if_pos is]
        exact rest results evaluated
      · rename_i plain
        rw [if_neg plain]
        obtain ⟨result, first, evaluated⟩ := bind_eq_ok.mp evaluated
        obtain ⟨others, later, evaluated⟩ := bind_eq_ok.mp evaluated
        have first' := evaluate_perm limits node rows rows' result perm valid.1
          (fun node holds => unordered node (holds.grow (by simp))) first
        exact bind_eq_ok.mpr ⟨result, first', bind_eq_ok.mpr ⟨others, rest others later, evaluated⟩⟩

end

end Rollup
