import Rollup.Proofs.Aggregation.Evaluate
import Rollup.Proofs.Aggregation.Order
import Rollup.Proofs.Bucketing.Parameters

/-! # The first buckets

Metrics that an order reads are computed before groups are cut off, everything else after it. What
comes out is what sorting all buckets by their own results, and cutting then, would give.
-/

namespace Rollup

/-- What an order sees of a bucket: its numbers are in its own results. -/
def Bucket.seen (bucket : Bucket) : Seen :=
  { key := bucket.key
    count := bucket.count
    number? := fun path => do
      let value ← (← bucket.results.lookup path.name).value?
      value.property? path.property }

/-- The first of some buckets; those cut off are counted with the rows beside them. -/
def Result.first (size : Option Nat) (buckets : List Bucket) (otherCount : Option Nat) : Result :=
  let cut := size.elim [] buckets.drop
  .buckets (size.elim buckets buckets.take)
    (if otherCount = none ∧ cut = [] then none
      else some (otherCount.getD 0 + (cut.map (·.count)).sum))

namespace Node

/-- The same node with its buckets in the order of their keys, and a number of them to keep. -/
def byKey (node : Node) (size : Nat) : Node :=
  let ordered := Entries.set node.params "order" (.object [("_key", .string "asc")])
  { node with params := Entries.set ordered "size" (.ofNat size) }

variable (node : Node) (size : Nat)

theorem sameGrouping_byKey : node.SameGrouping (node.byKey size).params := by
  intro name order size
  simp only [param?, byKey, Entries.lookup_set, if_neg order, if_neg size]

theorem groupRows_byKey (method : Bucketing) (limits : Limits) (rows : List Row) :
    method.groupRows (node.byKey size) limits rows = method.groupRows node limits rows :=
  Bucketing.groupRows_withParams (node.sameGrouping_byKey size) method limits rows

theorem size_byKey : (node.byKey size).natParam "size" = .ok (some size) := by
  have asked : (node.byKey size).param? "size" = some (.ofNat size) := by
    simp [param?, byKey, Entries.lookup_set, Json.ofNat]
  rw [natParam, asked]
  rfl

theorem order_byKey : BucketOrder.ofNode? (node.byKey size) = .ok (some .keyAscending) := by
  have asked : (node.byKey size).param? "order" = some (.object [("_key", .string "asc")]) := by
    simp [param?, byKey, Entries.lookup_set]
  rw [BucketOrder.ofNode?, asked]
  rfl

end Node

/-! ## What an order reads -/

/-- Views that agree as far as an order reads them. -/
structure Seen.Agree (order : BucketOrder) (a b : Seen) : Prop where
  key : a.key = b.key
  count : a.count = b.count
  number : ∀ path, path.name ∈ order.metricChildren → a.number? path = b.number? path

theorem compareSeen_congr {order : BucketOrder} {a a' b b' : Seen} (left : a.Agree order a')
    (right : b.Agree order b') : order.compareSeen a b = order.compareSeen a' b' := by
  induction order with
  | nil => rw [BucketOrder.compareSeen, BucketOrder.compareSeen, left.key, right.key]
  | cons clause clauses ih =>
      have rest (x y : Seen) (agree : x.Agree (clause :: clauses) y) : x.Agree clauses y := by
        refine ⟨agree.key, agree.count, fun path reads => agree.number path ?_⟩
        exact (List.sublist_cons_self clause clauses).filterMap _ |>.subset reads
      have first : clause.compareSeen a b = clause.compareSeen a' b' := by
        obtain ⟨target, descending⟩ := clause
        cases target with
        | count => simp only [OrderClause.compareSeen, left.count, right.count]
        | key => simp only [OrderClause.compareSeen, left.key, right.key]
        | metric path =>
            have reads : path.name ∈
                BucketOrder.metricChildren (⟨.metric path, descending⟩ :: clauses) :=
              List.mem_cons_self
            simp only [OrderClause.compareSeen, left.number path reads, right.number path reads]
      rw [BucketOrder.compareSeen, BucketOrder.compareSeen, first,
        ih (rest a a' left) (rest b b' right)]

/-- An order that is accepted reads metric children only. -/
theorem metricChild?_of_validateOrder {node : Node}
    (checked : ∀ child ∈ node.children, ∃ method, child.Checked method)
    (valid : node.validateOrder = .ok ()) {order : BucketOrder}
    (asked : BucketOrder.ofNode? node = .ok (some order)) {name : String}
    (reads : name ∈ order.metricChildren) :
    ∃ metric child, node.metricChild? name = some (metric, child) ∧ ¬ child.isPipeline := by
  obtain ⟨clause, member, is⟩ := List.mem_filterMap.mp reads
  cases target : clause.target with
  | count =>
      rw [target] at is
      cases is
  | key =>
      rw [target] at is
      cases is
  | metric path =>
      rw [target] at is
      cases is
      obtain ⟨shape, shaped, -⟩ := Node.checks_of_validateOrder valid asked member target
      obtain ⟨metric, child, found, -, kind⟩ := Node.metricChild?_of_metricShape? checked shaped
      exact ⟨metric, child, found, by simp [Node.isPipeline, kind]⟩

/-! ## Sorting before and after the rest is computed -/

/-- The bucket of a candidate, with the results of its rows if there are any. -/
def Candidate.bucket (limits : Limits) (nodes : List Node) (candidate : Candidate Row) : Bucket :=
  { key := candidate.key
    count := candidate.count
    results := (evaluateAll limits candidate.ids nodes).toOption.getD [] }

theorem forall₂_bucket_iff {limits : Limits} {nodes : List Node} {kept : List (Candidate Row)}
    {buckets : List Bucket} :
    List.Forall₂ (fun candidate bucket => bucket.key = candidate.key ∧
        bucket.count = candidate.count ∧
        evaluateAll limits candidate.ids nodes = .ok bucket.results) kept buckets ↔
      (∀ candidate ∈ kept, ∃ results, evaluateAll limits candidate.ids nodes = .ok results) ∧
        buckets = kept.map (Candidate.bucket limits nodes) := by
  constructor
  · intro each
    induction each with
    | nil => exact ⟨by simp, rfl⟩
    | @cons candidate bucket _ _ made rest ih =>
        obtain ⟨key, count, results⟩ := bucket
        obtain ⟨rfl, rfl, evaluated⟩ := made
        refine ⟨List.forall_mem_cons.mpr ⟨⟨results, evaluated⟩, ih.1⟩, ?_⟩
        rw [List.map_cons, ← ih.2, Candidate.bucket, evaluated]
        rfl
  · rintro ⟨evaluated, rfl⟩
    rw [List.forall₂_map_right_iff, List.forall₂_same]
    intro candidate member
    obtain ⟨results, evaluated⟩ := evaluated candidate member
    refine ⟨rfl, rfl, ?_⟩
    rw [Candidate.bucket, evaluated]
    rfl

/-- A candidate that was measured from a group, and knows what its bucket will show of it. -/
structure Foreseen (limits : Limits) (node : Node) (order : BucketOrder) (group : Key × List Row)
    (candidate : Candidate Row) : Prop where
  measured : order.metricChildren.foldlM (Selection.measure Metric.ofRows node) (.ofGroup group) =
    .ok candidate
  key : candidate.key = group.1
  ids : candidate.ids = group.2
  agree : candidate.seen.Agree order (candidate.bucket limits node.children).seen

section Sorting

variable {limits : Limits} {rows : List Row} {node : Node} {method : Bucketing}
  {order : BucketOrder}

/-- A group whose level can be evaluated can be measured, and its metrics are those of its bucket. -/
theorem exists_foreseen (valid : Forest.validate node.children = .ok ())
    (reads : ∀ name ∈ order.metricChildren, ∃ metric child,
      node.metricChild? name = some (metric, child) ∧ ¬ child.isPipeline)
    {group : Key × List Row}
    (level : ∃ results, evaluateAll limits group.2 node.children = .ok results) :
    ∃ candidate, Foreseen limits node order group candidate := by
  obtain ⟨results, evaluated⟩ := level
  have computed : ∀ name ∈ order.metricChildren, ∃ metric child value,
      node.metricChild? name = some (metric, child) ∧ metric.ofRows child group.2 = .ok value ∧
        results.lookup name = some (.value value) := by
    intro name member
    obtain ⟨metric, child, found, plain⟩ := reads name member
    obtain ⟨⟨hchild, rfl⟩, is⟩ := Node.of_metricChild? found
    obtain ⟨result, stands, evaluated⟩ :=
      lookup_evaluateAll (Forest.names_of_validate valid) evaluated hchild plain
    obtain ⟨value, computed, rfl⟩ := (evaluate_metric_iff is).mp evaluated
    exact ⟨metric, child, value, found, computed, stands⟩
  obtain ⟨measured, measure⟩ : ∃ measured, order.metricChildren.foldlM
      (Selection.measure Metric.ofRows node) (.ofGroup group) = .ok measured := by
    rw [Selection.measured_iff]
    intro name member metric child found
    obtain ⟨other, child', value, found', computed, -⟩ := computed name member
    rw [found'] at found
    cases found
    exact ⟨value, computed⟩
  obtain ⟨key, ids, metrics⟩ := Selection.lookup_measured measure
  refine ⟨measured, measure, key, ids, rfl, rfl, fun path member => ?_⟩
  obtain ⟨metric, child, value, found, computed, stands⟩ := computed path.name member
  have known : measured.metrics.lookup path.name = some value := by
    rw [metrics, if_pos member, found]
    exact congrArg Except.toOption computed
  have built : (measured.bucket limits node.children).results = results := by
    rw [Candidate.bucket, ids]
    show (evaluateAll limits group.2 node.children).toOption.getD [] = results
    rw [evaluated]
    rfl
  simp only [Candidate.seen, Candidate.number?, known, Bucket.seen, built, stands]
  rfl

/-- With nothing cut off, buckets are the groups, and every level inside them is evaluated. -/
theorem evaluate_byKey (valid : Forest.validate node.children = .ok ())
    (is : Method.ofName? node.typeName = some (.bucketing method)) {size : Nat}
    (enough : ∀ grouping, method.groupRows node limits rows = .ok grouping →
      grouping.groups.length ≤ size)
    {all : List Bucket} {others : Option Nat}
    (evaluated : evaluate limits rows (node.byKey size) = .ok (.buckets all others)) :
    ∃ grouping, method.groupRows node limits rows = .ok grouping ∧
      (∀ group ∈ grouping.groups, ∃ results,
        evaluateAll limits group.2 node.children = .ok results) ∧
      (grouping.groups.map fun group =>
        (Candidate.ofGroup group).bucket limits node.children).Perm all ∧
      others = if 0 < grouping.folded then some grouping.folded else none := by
  have known : (node.byKey size).ChildrenKnown := childrenKnown_of_validate valid
  obtain ⟨method', kept, is', selected, each⟩ := evaluate_buckets_iff.mp evaluated
  obtain rfl : method = method' := by
    cases is.symm.trans is'
    rfl
  obtain ⟨levels, rfl⟩ := forall₂_bucket_iff.mp each
  obtain ⟨order, bound, grouping, measured, ordered, sized, grouped, measure, last⟩ :=
    (selectRows_eq_ok known).mp selected
  cases ordered.symm.trans (node.order_byKey size)
  cases sized.symm.trans (node.size_byKey size)
  rw [node.groupRows_byKey] at grouped
  have groups : grouping.groups.map .ofGroup = measured := by
    rw [← List.forall₂_eq_eq_eq, List.forall₂_map_left_iff]
    exact measure.imp fun group candidate h => Except.ok.inj h
  subst groups
  have enough : (grouping.groups.map Candidate.ofGroup).length ≤ size := by
    rw [List.length_map]
    exact enough grouping grouped
  obtain ⟨rfl, rfl⟩ := Prod.mk.inj (last.trans (Selection.cut_of_length_le _ _ enough))
  have perm := List.mergeSort_perm (grouping.groups.map Candidate.ofGroup)
    fun a b => (BucketOrder.keyAscending.compare a b).isLE
  refine ⟨grouping, grouped, ?_, ?_, rfl⟩
  · intro group member
    exact levels (.ofGroup group) (perm.symm.subset (List.mem_map_of_mem member))
  · have buckets := perm.symm.map (Candidate.bucket limits node.children)
    rwa [List.map_map] at buckets

/-- Cutting candidates and making buckets of them is making buckets and taking the first. -/
theorem first_bucket (nodes : List Node) (size : Option Nat) (folded : Nat)
    (candidates : List (Candidate Row)) :
    Result.first size ((Selection.sorted order candidates).map (Candidate.bucket limits nodes))
        (if 0 < folded then some folded else none) =
      .buckets ((Selection.cut order size folded candidates).1.map (Candidate.bucket limits nodes))
        (Selection.cut order size folded candidates).2 := by
  rw [Selection.cut_eq, Result.first]
  generalize Selection.sorted order candidates = sorted
  have counts (cut : List (Candidate Row)) :
      (cut.map (Candidate.bucket limits nodes)).map (·.count) = cut.map Candidate.count :=
    List.map_map
  cases size with
  | none => by_cases some : 0 < folded <;> simp [some]
  | some n =>
      simp only [Option.elim_some, ← List.map_take, ← List.map_drop, counts, List.map_eq_nil_iff]
      by_cases some : 0 < folded
      · simp [some]
      · have none : folded = 0 := by omega
        by_cases cut : sorted.drop n = [] <;> simp [none, cut]

/-- Sorting candidates by what they know is sorting their buckets by what they show. -/
theorem map_sorted_bucket {nodes : List Node} {measured : List (Candidate Row)}
    (agree : ∀ candidate ∈ measured, candidate.seen.Agree order (candidate.bucket limits nodes).seen) :
    (Selection.sorted order measured).map (Candidate.bucket limits nodes) =
      (measured.map (Candidate.bucket limits nodes)).mergeSort
        fun a b => (order.compareSeen a.seen b.seen).isLE := by
  refine List.map_mergeSort fun a ha b hb => ?_
  rw [compare_eq_compareSeen, compareSeen_congr (agree a ha) (agree b hb)]

theorem pairwise_sorted_groups {groups : Groups Row} (laws : groups.Ordered) (nodes : List Node) :
    ((groups.map fun group => (Candidate.ofGroup group).bucket limits nodes).mergeSort
      fun a b => (order.compareSeen a.seen b.seen).isLE).Pairwise
        fun a b => order.compareSeen a.seen b.seen = .lt := by
  refine pairwise_sorted order Bucket.seen ?_ ?_
  · intro bucket member
    obtain ⟨group, hgroup, rfl⟩ := List.mem_map.mp member
    exact laws.inRange group hgroup
  · rw [List.map_map]
    exact laws.nodup

/-- Sorting first and computing the rest later is computing everything and sorting by the results. -/
theorem evaluate_first (valid : Forest.validate node.children = .ok ())
    (is : Method.ofName? node.typeName = some (.bucketing method)) {asked : Option BucketOrder}
    (ordered : BucketOrder.ofNode? node = .ok asked) {bound : Option Nat}
    (sized : node.natParam "size" = .ok bound) (order_eq : asked.getD method.defaultOrder = order)
    (reads : ∀ name ∈ order.metricChildren, ∃ metric child,
      node.metricChild? name = some (metric, child) ∧ ¬ child.isPipeline) {size : Nat}
    (enough : ∀ grouping, method.groupRows node limits rows = .ok grouping →
      grouping.groups.length ≤ size)
    {all : List Bucket} {others : Option Nat}
    (evaluated : evaluate limits rows (node.byKey size) = .ok (.buckets all others)) :
    ∃ sorted : List Bucket, sorted.Perm all ∧
      (sorted.Pairwise fun a b => order.compareSeen a.seen b.seen = .lt) ∧
      evaluate limits rows node = .ok (.first (bound <|> method.defaultSize limits) sorted others) := by
  obtain ⟨grouping, grouped, levels, perm, rfl⟩ := evaluate_byKey valid is enough evaluated
  -- Measuring cannot fail, since all levels inside the groups can be evaluated.
  obtain ⟨measured, each⟩ := exists_forall₂ fun group member =>
    exists_foreseen valid reads (levels group member)
  have foreseen (candidate : Candidate Row) (member : candidate ∈ measured) :
      ∃ group ∈ grouping.groups, Foreseen limits node order group candidate :=
    exists_related each member
  have buckets : measured.map (Candidate.bucket limits node.children) =
      grouping.groups.map fun group => (Candidate.ofGroup group).bucket limits node.children := by
    refine map_eq_of_related each fun group candidate foreseen => ?_
    simp only [Candidate.bucket, Candidate.count, foreseen.key, foreseen.ids, Candidate.ofGroup]
  have agree (candidate : Candidate Row) (member : candidate ∈ measured) :
      candidate.seen.Agree order (candidate.bucket limits node.children).seen := by
    obtain ⟨group, -, seen⟩ := foreseen candidate member
    exact seen.agree
  have sorted := map_sorted_bucket agree
  rw [buckets] at sorted
  refine ⟨(Selection.sorted order measured).map (Candidate.bucket limits node.children), ?_, ?_, ?_⟩
  · rw [sorted]
    exact (List.mergeSort_perm _ _).trans perm
  · rw [sorted]
    exact pairwise_sorted_groups (Bucketing.ordered_groupRows grouped) node.children
  · have kept := (selectRows_eq_ok (childrenKnown_of_validate valid)).mpr
      ⟨asked, bound, grouping, measured, ordered, sized, grouped,
        order_eq ▸ each.imp fun group candidate foreseen => foreseen.measured, rfl⟩
    rw [order_eq] at kept
    rw [first_bucket, evaluate_buckets_iff]
    refine ⟨method, _, is, kept, forall₂_bucket_iff.mpr ⟨?_, rfl⟩⟩
    intro candidate member
    obtain ⟨rest, cut, -⟩ := Selection.perm_cut order (bound <|> method.defaultSize limits)
      grouping.folded measured
    obtain ⟨group, hgroup, seen⟩ :=
      foreseen candidate (cut.subset (List.mem_append_left rest member))
    rw [seen.ids]
    exact levels group hgroup

end Sorting

/-! ## Building the first buckets -/

theorem bucketCount_first_le {size : Option Nat} {sorted all : List Bucket} (perm : sorted.Perm all)
    (others others' : Option Nat) :
    (Result.first size sorted others).bucketCount ≤ (Result.buckets all others').bucketCount := by
  have kept : (size.elim sorted sorted.take).Sublist sorted := by
    cases size with
    | none => exact .refl sorted
    | some n => exact List.take_sublist n sorted
  have all_eq : bucketCountBelow all = bucketCountBelow sorted := by
    rw [bucketCountBelow_eq, bucketCountBelow_eq, perm.length_eq, (perm.map _).sum_eq]
  rw [Result.first, Result.bucketCount, Result.bucketCount, all_eq, bucketCountBelow_eq,
    bucketCountBelow_eq]
  exact Nat.add_le_add kept.length_le ((kept.map _).sum_le_sum fun _ _ => Nat.zero_le _)

theorem exists_size_of_validate {method : Bucketing} {node : Node}
    (valid : method.validate node = .ok ()) : ∃ bound, node.natParam "size" = .ok bound := by
  have sized : node.checkSize = .ok () := by
    cases method with
    | terms =>
        obtain ⟨field, -, rest⟩ := bind_eq_ok.mp valid
        exact rest
    | _ =>
        obtain ⟨field, -, rest⟩ := bind_eq_ok.mp valid
        exact (check_eq_ok.mp rest).1
  obtain ⟨bound, positive, -⟩ := bind_eq_ok.mp sized
  obtain ⟨bound, sized, -⟩ := bind_eq_ok.mp positive
  exact ⟨bound, sized⟩

/-- Take a bucketing node that is accepted, and suppose that its buckets can all be built, in the order
of their keys. Then the node can be built: it has the first of these buckets in its own order, and
counts the rows of the others. -/
theorem build_keeps_the_first {limits : Limits} {set : RowSet} {node : Node} {method : Bucketing}
    (accepted : node.validate = .ok ()) (valid : Forest.validate node.children = .ok ())
    (is : node.method = .ok (.bucketing method)) {size : Nat}
    (enough : ∀ grouping, method.group node set limits = .ok grouping →
      grouping.groups.length ≤ size)
    {created after : Nat} {all : List Bucket} {others : Option Nat}
    (built : (build limits set (node.byKey size)).run created = .ok (.buckets all others, after)) :
    ∃ asked bound sorted after', BucketOrder.ofNode? node = .ok asked ∧
      node.natParam "size" = .ok bound ∧ sorted.Perm all ∧
      (sorted.Pairwise fun a b =>
        (asked.getD method.defaultOrder).compareSeen a.seen b.seen = .lt) ∧
      (build limits set node).run created =
        .ok (.first (bound <|> method.defaultSize limits) sorted others, after') := by
  have is := Method.find_eq_ok.mp is
  obtain ⟨method', checked⟩ := Node.validate_eq_ok.mp accepted
  cases is.symm.trans checked.named
  obtain ⟨bound, sized⟩ := exists_size_of_validate checked.parameters
  have order := checked.order checked.kind.symm
  obtain ⟨asked, ordered, -⟩ := bind_eq_ok.mp order
  have reads : ∀ name ∈ (asked.getD method.defaultOrder).metricChildren, ∃ metric child,
      node.metricChild? name = some (metric, child) ∧ ¬ child.isPipeline := by
    intro name member
    cases asked with
    | none => cases method <;> cases member
    | some asked =>
        exact metricChild?_of_validateOrder (Forest.checked_of_validate valid) order ordered member
  have few : ∀ grouping, method.groupRows node limits set.toList = .ok grouping →
      grouping.groups.length ≤ size := by
    intro grouping grouped
    rw [Bucketing.groupRows_toList] at grouped
    obtain ⟨ofSet, found, rfl⟩ := map_eq_ok.mp grouped
    rw [Grouping.mapRows, Groups.mapRows, List.length_map]
    exact enough ofSet found
  -- The first buckets are no more than all of them, so that the budget is enough for them too.
  have within := created_le_of_build built
  obtain ⟨evaluated, rfl, paid⟩ :=
    (build_costs limits (node.byKey size) set valid created within _ _).mp built
  obtain ⟨sorted, perm, ascending, first⟩ :=
    evaluate_first valid is ordered sized rfl reads few evaluated
  have price : (Result.first (bound <|> method.defaultSize limits) sorted others).bucketCount ≤
      (Result.buckets all others).bucketCount := bucketCount_first_le perm others others
  have ran := (build_costs limits node set valid created within _ _).mpr ⟨first, rfl, by omega⟩
  exact ⟨asked, bound, sorted, _, ordered, sized, perm, ascending, ran⟩

def mostVisited : Node := ⟨"country", "terms", .bucketing, some "country", [("size", .ofNat 1)], []⟩

def arrivals : RowSet := .all #[[("country", .string "at")], [("country", .string "fr")],
  [("country", .string "fr")]]

theorem build_keeps_the_first_arrivals :
    (build {} arrivals (mostVisited.byKey 2)).run 0 =
        .ok (.buckets [⟨.str "at", 1, []⟩, ⟨.str "fr", 2, []⟩] none, 2) ∧
      ∃ asked bound sorted after, BucketOrder.ofNode? mostVisited = .ok asked ∧
        mostVisited.natParam "size" = .ok bound ∧
        sorted.Perm [⟨.str "at", 1, []⟩, ⟨.str "fr", 2, []⟩] ∧
        (sorted.Pairwise fun a b =>
          (asked.getD Bucketing.terms.defaultOrder).compareSeen a.seen b.seen = .lt) ∧
        (build {} arrivals mostVisited).run 0 =
          .ok (.first (bound <|> Bucketing.terms.defaultSize {}) sorted none, after) := by
  have built : (build {} arrivals (mostVisited.byKey 2)).run 0 =
      .ok (.buckets [⟨.str "at", 1, []⟩, ⟨.str "fr", 2, []⟩] none, 2) := by cbv
  have groups : (·.groups.length) <$> Bucketing.terms.group mostVisited arrivals {} = .ok 2 := by cbv
  refine ⟨built, build_keeps_the_first (by cbv) (by cbv) (by cbv) ?_ built⟩
  intro grouping grouped
  rw [grouped] at groups
  exact (Except.ok.inj groups).le

end Rollup
