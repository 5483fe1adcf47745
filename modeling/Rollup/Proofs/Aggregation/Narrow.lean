import Rollup.Proofs.Aggregation.Site
import Rollup.Proofs.Aggregation.TopN

/-! # Forests with fewer nodes

A forest may lose nodes, with all that is below them, and siblings may change places. A node that is
kept evaluates to what it did before, with the results below it that nobody asks for any more left
out: groups and the order of buckets do not depend on siblings.
-/

namespace Rollup

namespace Forest

/-- One forest comes of another by deleting nodes and reordering siblings, at any depth. -/
inductive Reduces : List Node → List Node → Prop where
  | nil : Reduces [] []
  | drop {node : Node} {nodes nodes' : List Node} : Reduces nodes nodes' →
      Reduces (node :: nodes) nodes'
  | keep {node : Node} {nodes nodes' children' : List Node} : Reduces node.children children' →
      Reduces nodes nodes' → Reduces (node :: nodes) ({ node with children := children' } :: nodes')
  | reorder {nodes nodes' nodes'' : List Node} : Reduces nodes nodes' → nodes'.Perm nodes'' →
      Reduces nodes nodes''

/-- A node that is left of another one: only its children may be fewer, or in another order. -/
structure Kept (node node' : Node) : Prop where
  children : Reduces node.children node'.children
  rest : node' = { node with children := node'.children }

theorem Reduces.kept {nodes nodes' : List Node} (reduces : Reduces nodes nodes') :
    ∀ node' ∈ nodes', ∃ node ∈ nodes, Kept node node' := by
  induction reduces with
  | nil => nofun
  | drop _ ih =>
      intro node' member
      obtain ⟨node, hnode, kept⟩ := ih node' member
      exact ⟨node, List.mem_cons_of_mem _ hnode, kept⟩
  | @keep node _ _ _ below _ _ ih =>
      intro node' member
      rcases List.mem_cons.mp member with rfl | member
      · exact ⟨node, List.mem_cons_self, below, rfl⟩
      · obtain ⟨node, hnode, kept⟩ := ih node' member
        exact ⟨node, List.mem_cons_of_mem _ hnode, kept⟩
  | reorder _ perm ih => exact fun node' member => ih node' (perm.mem_iff.mpr member)

/-- What holds of a level if it holds of the levels below its nodes holds of all levels. -/
theorem induction_below {P : List Node → Prop}
    (level : ∀ nodes, (∀ node ∈ nodes, P node.children) → P nodes) (nodes : List Node) : P nodes :=
  level nodes fun node _member => induction_below level node.children
termination_by sizeOf nodes
decreasing_by
  have smaller := List.sizeOf_lt_of_mem _member
  cases node
  simp at smaller ⊢
  omega

namespace Kept

variable {node node' : Node} (kept : Kept node node')

include kept

theorem name : node'.name = node.name := by rw [kept.rest]

theorem typeName : node'.typeName = node.typeName := by rw [kept.rest]

theorem kind : node'.kind = node.kind := by rw [kept.rest]

theorem isPipeline : node'.isPipeline = node.isPipeline := by rw [Node.isPipeline, kept.kind]; rfl

/-- Only a bucketing node has children to lose. -/
theorem eq_of_leaf {method : Method} (checked : node.Checked method) {method' : Method}
    (checked' : node'.Checked method') (leaf : node.kind ≠ .bucketing) : node' = node := by
  have same := kept.rest
  rw [checked'.leaf (kept.kind ▸ leaf), ← checked.leaf leaf] at same
  obtain ⟨name, typeName, kind, field, params, children⟩ := node
  exact same

end Kept

end Forest

open Forest

/-! ## Results that are asked for -/

mutual

/-- What is left of the result of a node: below it, results of other nodes are left out, and the rest
is in the order of nodes. -/
def Node.narrow : Node → Result → Result
  | ⟨_, _, _, _, _, children⟩, .buckets buckets otherCount =>
      .buckets (buckets.map fun bucket =>
        { bucket with results := Forest.narrow children bucket.results }) otherCount
  | _, .value value => .value value
  | _, .series values => .series values

/-- What is left of the results of a level. -/
def Forest.narrow : List Node → Entries Result → Entries Result
  | [], _ => []
  | node :: nodes, results =>
      match results.lookup node.name with
      | none => Forest.narrow nodes results
      | some result => (node.name, node.narrow result) :: Forest.narrow nodes results

end

theorem Node.narrow_buckets (node : Node) (buckets : List Bucket) (otherCount : Option Nat) :
    node.narrow (.buckets buckets otherCount) = .buckets (buckets.map fun bucket =>
      { bucket with results := Forest.narrow node.children bucket.results }) otherCount := by
  obtain ⟨name, typeName, kind, field, params, children⟩ := node
  rw [Node.narrow]

@[simp] theorem Node.narrow_value (node : Node) (value : Value) :
    node.narrow (.value value) = .value value := by
  rw [Node.narrow]

@[simp] theorem Node.narrow_series (node : Node) (values : List (Key × Option Float)) :
    node.narrow (.series values) = .series values := by
  rw [Node.narrow]

theorem narrow_of_not_buckets {node : Node} {result : Result} (not : result.buckets? = none) :
    node.narrow result = result := by
  cases result with
  | buckets => cases not
  | value => simp
  | series => simp

section Level

variable {nodes : List Node} {results : Entries Result}

/-- The results that the nodes of a level find under their names, each changed in some way. -/
def foundBy (change : Node → Result → Result) (nodes : List Node) (results : Entries Result) :
    Entries Result :=
  nodes.filterMap fun node =>
    (results.lookup node.name).map fun result => (node.name, change node result)

theorem narrow_eq (nodes : List Node) (results : Entries Result) :
    Forest.narrow nodes results = foundBy Node.narrow nodes results := by
  induction nodes with
  | nil =>
      rw [Forest.narrow]
      rfl
  | cons node nodes ih =>
      rw [Forest.narrow, foundBy, List.filterMap_cons, ih]
      cases results.lookup node.name <;> rfl

theorem names_foundBy (change : Node → Result → Result) (nodes : List Node)
    (results : Entries Result) :
    ((foundBy change nodes results).map (·.1)).Sublist (nodes.map (·.name)) := by
  induction nodes with
  | nil => exact .slnil
  | cons node nodes ih =>
      rw [foundBy, List.filterMap_cons]
      cases results.lookup node.name with
      | none => exact ih.cons _
      | some result => exact ih.cons_cons _

theorem bucketCountOf_foundBy {change : Node → Result → Result}
    (less : ∀ node ∈ nodes, ∀ result, (change node result).bucketCount ≤ result.bucketCount) :
    bucketCountOf (foundBy change nodes results) ≤
      bucketCountOf (foundBy (fun _ result => result) nodes results) := by
  induction nodes with
  | nil => exact le_rfl
  | cons node nodes ih =>
      rw [List.forall_mem_cons] at less
      simp only [foundBy, List.filterMap_cons]
      cases results.lookup node.name with
      | none => exact ih less.2
      | some result => exact Nat.add_le_add (less.1 result) (ih less.2)

variable (distinct : (nodes.map (·.name)).Nodup)

include distinct

theorem lookup_narrow {node : Node} (member : node ∈ nodes) :
    (Forest.narrow nodes results).lookup node.name =
      (results.lookup node.name).map node.narrow := by
  rw [narrow_eq]
  cases found : results.lookup node.name with
  | none =>
      refine lookup_eq_none_of_not_mem fun named => ?_
      obtain ⟨entry, hentry, same⟩ := List.mem_map.mp named
      obtain ⟨other, -, hother⟩ := List.mem_filterMap.mp hentry
      obtain ⟨result, known, rfl⟩ := Option.map_eq_some_iff.mp hother
      rw [show other.name = node.name from same, found] at known
      cases known
  | some result =>
      refine lookup_of_mem (distinct.sublist (names_foundBy _ nodes results)) ?_
      exact List.mem_filterMap.mpr ⟨node, member, by rw [found]; rfl⟩

/-- No two nodes of a level find the same result. -/
theorem bucketCountOf_found_le :
    bucketCountOf (foundBy (fun _ result => result) nodes results) ≤ bucketCountOf results := by
  have once : (foundBy (fun _ result => result) nodes results).Nodup :=
    .of_map Prod.fst (distinct.sublist (names_foundBy _ nodes results))
  have among : foundBy (fun _ result => result) nodes results ⊆ results := by
    intro entry member
    obtain ⟨node, -, same⟩ := List.mem_filterMap.mp member
    obtain ⟨result, found, rfl⟩ := Option.map_eq_some_iff.mp same
    exact mem_of_lookup found
  obtain ⟨part, perm, sublist⟩ := once.subperm among
  rw [bucketCountOf_eq, bucketCountOf_eq, ← (perm.map _).sum_eq]
  exact (sublist.map _).sum_le_sum fun _ _ => Nat.zero_le _

end Level

/-- What is left of results has no more buckets. -/
theorem bucketCountOf_narrow (nodes : List Node) : Forest.validate nodes = .ok () →
    ∀ results, bucketCountOf (Forest.narrow nodes results) ≤ bucketCountOf results := by
  induction nodes using induction_below with
  | level nodes below =>
      intro valid results
      rw [narrow_eq]
      refine (bucketCountOf_foundBy ?_).trans (bucketCountOf_found_le (names_of_validate valid))
      intro node member result
      cases result with
      | value => simp
      | series => simp
      | buckets buckets otherCount =>
          rw [Node.narrow_buckets, Result.bucketCount, Result.bucketCount, bucketCountBelow_eq,
            bucketCountBelow_eq, List.length_map, List.map_map]
          refine Nat.add_le_add_left (List.sum_le_sum fun bucket _ => ?_) _
          exact below node member (below_of_validate valid node member) bucket.results

/-! ## Evaluating what is left -/

theorem Node.child?_of_mem {node child : Node} (valid : Forest.validate node.children = .ok ())
    (member : child ∈ node.children) : node.child? child.name = some child := by
  have found : (node.child? child.name).isSome :=
    List.find?_isSome.mpr ⟨child, member, decide_eq_true rfl⟩
  obtain ⟨other, found⟩ := Option.isSome_iff_exists.mp found
  obtain ⟨hother, same⟩ := Node.mem_of_child? found
  rw [found, eq_of_name valid hother member same]

section Kept

variable {node node' : Node} (kept : Kept node node')

include kept

theorem groupRows_kept (method : Bucketing) (limits : Limits) (rows : List Row) :
    method.groupRows node' limits rows = method.groupRows node limits rows := by
  rw [kept.rest]
  cases method <;> rfl

theorem ofNode?_kept : BucketOrder.ofNode? node' = BucketOrder.ofNode? node := by
  rw [kept.rest]
  rfl

theorem natParam_kept (name : String) : node'.natParam name = node.natParam name := by
  rw [kept.rest]
  rfl

variable (valid : Forest.validate node.children = .ok ())
  (valid' : Forest.validate node'.children = .ok ())

include valid valid'

/-- A metric child that is left was there before. -/
theorem metricChild?_kept {name : String} {pair : Metric × Node}
    (found : node'.metricChild? name = some pair) : node.metricChild? name = some pair := by
  obtain ⟨metric, child'⟩ := pair
  obtain ⟨⟨member', rfl⟩, named⟩ := Node.of_metricChild? found
  obtain ⟨child, member, same⟩ := kept.children.kept child' member'
  obtain ⟨method, checked⟩ := checked_of_validate valid child member
  obtain ⟨method', checked'⟩ := checked_of_validate valid' child' member'
  have leaf : child.kind ≠ .bucketing := by
    rw [← same.kind, ← checked'.kind, Option.some.inj (checked'.named.symm.trans named)]
    nofun
  obtain rfl := same.eq_of_leaf checked checked' leaf
  simp [Node.metricChild?, Node.child?_of_mem valid member, named]

theorem measures_kept {compute : Metric → Node → List Row → Except Error Value}
    {names : List String} (metrics : ∀ name ∈ names, (node'.metricChild? name).isSome)
    (candidate : Candidate Row) :
    names.foldlM (Selection.measure compute node') candidate =
      names.foldlM (Selection.measure compute node) candidate := by
  induction names generalizing candidate with
  | nil => rfl
  | cons name names ih =>
      rw [List.forall_mem_cons] at metrics
      obtain ⟨pair, found⟩ := Option.isSome_iff_exists.mp metrics.1
      have first : Selection.measure compute node' candidate name =
          Selection.measure compute node candidate name := by
        rw [Selection.measure, Selection.measure, found, metricChild?_kept kept valid valid' found]
      rw [List.foldlM_cons, List.foldlM_cons, first]
      exact congrArg (_ >>= ·) (funext fun middle => ih metrics.2 middle)

/-- The metrics by which buckets are ordered have to be left, so the same buckets are selected. -/
theorem selectRows_kept {method : Bucketing} (checked' : node'.Checked (.bucketing method))
    {limits : Limits} {rows : List Row} {selected : List (Candidate Row) × Option Nat}
    (h : selectRows limits method node rows = .ok selected) :
    selectRows limits method node' rows = .ok selected := by
  obtain ⟨candidates, other⟩ := selected
  obtain ⟨order, size, grouping, measured, ordered, sized, grouped, each, last⟩ :=
    (selectRows_eq_ok (childrenKnown_of_validate valid)).mp h
  rw [← ofNode?_kept kept] at ordered
  rw [← natParam_kept kept] at sized
  rw [← groupRows_kept kept] at grouped
  have metrics : ∀ name ∈ (order.getD method.defaultOrder).metricChildren,
      (node'.metricChild? name).isSome := by
    intro name reads
    cases order with
    | none => cases method <;> cases reads
    | some order =>
        obtain ⟨metric, child, found, -⟩ := metricChild?_of_validateOrder
          (checked_of_validate valid') (checked'.order checked'.kind.symm) ordered reads
        exact Option.isSome_of_eq_some found
  refine (selectRows_eq_ok (childrenKnown_of_validate valid')).mpr
    ⟨order, size, grouping, measured, ordered, sized, grouped, ?_, last⟩
  simpa only [measures_kept kept valid valid' metrics] using each

/-- A node that is left evaluates to what is left of its result, if it is so for the level below. -/
theorem evaluate_kept {limits : Limits} {rows : List Row} {method method' : Method}
    (checked : node.Checked method) (checked' : node'.Checked method')
    (below : ∀ rows built, evaluateAll limits rows node.children = .ok built →
      evaluateAll limits rows node'.children = .ok (Forest.narrow node'.children built))
    {result : Result} (evaluated : evaluate limits rows node = .ok result) :
    evaluate limits rows node' = .ok (node'.narrow result) := by
  rcases result_of_evaluate checked.named evaluated with
    ⟨is, buckets, otherCount, rfl⟩ | ⟨is, value, rfl⟩
  · obtain ⟨bucketing, candidates, named, selected, made⟩ := evaluate_buckets_iff.mp evaluated
    have named' : Method.ofName? node'.typeName = some (.bucketing bucketing) := by
      rw [kept.typeName, named]
    obtain rfl := Option.some.inj (checked'.named.symm.trans named')
    rw [Node.narrow_buckets]
    refine evaluate_buckets_iff.mpr ⟨bucketing, candidates, named',
      selectRows_kept kept valid valid' checked' selected, ?_⟩
    rw [List.forall₂_map_right_iff]
    exact made.imp fun candidate bucket ⟨key, count, results⟩ => ⟨key, count, below _ _ results⟩
  · have leaf : node.kind ≠ .bucketing := by
      rw [← checked.kind, is]
      nofun
    rw [kept.eq_of_leaf checked checked' leaf, Node.narrow_value]
    exact evaluated

end Kept

theorem lookup_of_pipeline {limits : Limits} {rows : List Row} {nodes : List Node}
    {built : Entries Result} (valid : Forest.validate nodes = .ok ())
    (evaluated : evaluateAll limits rows nodes = .ok built) {node : Node} (member : node ∈ nodes)
    (is : node.isPipeline) : built.lookup node.name = none := by
  rw [evaluateAll_eq] at evaluated
  rw [Option.eq_none_iff_forall_not_mem]
  intro result found
  obtain ⟨other, hother, computed⟩ := exists_item evaluated (mem_of_lookup found)
  obtain ⟨hother, plain⟩ := List.mem_filter.mp hother
  obtain ⟨_, -, same⟩ := bind_eq_ok.mp computed
  obtain rfl := eq_of_name valid hother member (Prod.mk.inj (Except.ok.inj same)).1
  rw [is] at plain
  cases plain

/-- A forest that is left evaluates to what is left of the results. -/
theorem evaluateAll_reduced (limits : Limits) (nodes' : List Node) :
    ∀ {nodes : List Node}, Reduces nodes nodes' → Forest.validate nodes = .ok () →
      Forest.validate nodes' = .ok () → ∀ rows built, evaluateAll limits rows nodes = .ok built →
      evaluateAll limits rows nodes' = .ok (Forest.narrow nodes' built) := by
  induction nodes' using induction_below with
  | level nodes' below =>
      intro nodes reduces valid valid' rows built evaluated
      -- The whole forest that is left stays at hand for its nodes; the induction is on a part of it.
      suffices all : ∀ rest ⊆ nodes',
          evaluateAll limits rows rest = .ok (Forest.narrow rest built) from all nodes' fun _ => id
      intro rest within
      induction rest with
      | nil =>
          rw [evaluateAll, Forest.narrow]
          rfl
      | cons node' rest ih =>
          obtain ⟨member', within⟩ := List.cons_subset.mp within
          obtain ⟨node, member, kept⟩ := reduces.kept node' member'
          obtain ⟨method, checked⟩ := checked_of_validate valid node member
          obtain ⟨method', checked'⟩ := checked_of_validate valid' node' member'
          have inside := below_of_validate valid node member
          have inside' := below_of_validate valid' node' member'
          rw [evaluateAll, Forest.narrow, kept.name, kept.isPipeline, ih within]
          by_cases is : node.isPipeline
          · rw [if_pos is, lookup_of_pipeline valid evaluated member is]
          · obtain ⟨result, found, computed⟩ :=
              lookup_evaluateAll (names_of_validate valid) evaluated member is
            rw [if_neg is, found, evaluate_kept kept inside inside' checked checked'
              (below node' member' kept.children inside inside') computed]
            rfl

end Rollup
