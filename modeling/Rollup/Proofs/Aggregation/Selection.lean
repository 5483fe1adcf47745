import Rollup.Aggregation.Build
import Rollup.Proofs.Bucketing.Rows

/-! # Selecting buckets

Which groups become buckets depends on their keys, their sizes and the metrics that the order reads;
what stands for a row does not matter. So buckets can be selected from the rows themselves.
-/

namespace Rollup

variable {ι κ : Type}

namespace Candidate

/-- A group before anything is computed of it. -/
def ofGroup (group : Key × List ι) : Candidate ι :=
  { key := group.1, ids := group.2, metrics := [] }

/-- The same candidate with other things for its rows. -/
def map (f : ι → κ) (candidate : Candidate ι) : Candidate κ :=
  { key := candidate.key, ids := candidate.ids.map f, metrics := candidate.metrics }

@[simp] theorem count_map (f : ι → κ) (candidate : Candidate ι) :
    (candidate.map f).count = candidate.count :=
  List.length_map _

end Candidate

namespace Selection

variable (compute : Metric → Node → List ι → Except Error Value) (node : Node)

/-- Compute the metric child of a name for each candidate. -/
def measureAll (candidates : List (Candidate ι)) (name : String) :
    Except Error (List (Candidate ι)) :=
  match node.child? name with
  | none => .ok candidates
  | some child => do
      match ← Method.find child.typeName none with
      | .metric metric => candidates.mapM fun c => do
          let value ← compute metric child c.ids
          return { c with metrics := Entries.set c.metrics child.name value }
      | _ => return candidates

/-- The candidates that stay, in order, and how many rows are in the others, if there are any. -/
def cut (order : BucketOrder) (size : Option Nat) (folded : Nat) (candidates : List (Candidate ι)) :
    List (Candidate ι) × Option Nat :=
  let sorted := candidates.mergeSort fun a b => (order.compare a b).isLE
  let kept := size.elim sorted sorted.take
  let cut := size.elim [] sorted.drop
  let others := folded + (cut.flatMap (·.ids)).length
  (kept, if 0 < folded ∨ ¬ cut.isEmpty then some others else none)

/-- Select buckets of groups by an order. -/
def among (order : BucketOrder) (size : Option Nat) (grouping : Grouping ι) :
    Except Error (List (Candidate ι) × Option Nat) := do
  let candidates ← order.metricChildren.foldlM (measureAll compute node)
    (grouping.groups.map .ofGroup)
  return cut order size grouping.folded candidates

/-- Select buckets of groups as a node asks for it. -/
def select (limits : Limits) (method : Bucketing) (grouping : Except Error (Grouping ι)) :
    Except Error (List (Candidate ι) × Option Nat) := do
  let order ← BucketOrder.ofNode? node
  let size ← node.natParam "size"
  among compute node (order.getD method.defaultOrder) (size <|> method.defaultSize limits)
    (← grouping)

end Selection

/-! ## What stands for a row does not matter -/

theorem compare_map (f : ι → κ) (order : BucketOrder) (a b : Candidate ι) :
    order.compare (a.map f) (b.map f) = order.compare a b := by
  induction order with
  | nil => rfl
  | cons clause clauses ih =>
      have first : clause.compare (a.map f) (b.map f) = clause.compare a b := by
        obtain ⟨target, descending⟩ := clause
        cases target with
        | count => simp [OrderClause.compare]
        | key => rfl
        | metric path => rfl
      simp only [BucketOrder.compare, first, ih]

namespace Selection

theorem cut_map (f : ι → κ) (order : BucketOrder) (size : Option Nat) (folded : Nat)
    (candidates : List (Candidate ι)) :
    cut order size folded (candidates.map (Candidate.map f)) =
      Prod.map (List.map (Candidate.map f)) id (cut order size folded candidates) := by
  have sorted : (candidates.map (Candidate.map f)).mergeSort
        (fun a b => (order.compare a b).isLE) =
      (candidates.mergeSort fun a b => (order.compare a b).isLE).map (Candidate.map f) :=
    (List.map_mergeSort fun a _ b _ => by rw [compare_map]).symm
  unfold cut
  rw [sorted]
  cases size <;>
    simp [← List.map_take, ← List.map_drop, List.flatMap_map, Candidate.map, Prod.map, List.length_flatMap]

theorem measureAll_map {compute : Metric → Node → List ι → Except Error Value}
    {compute' : Metric → Node → List κ → Except Error Value} {f : ι → κ}
    {node : Node} (same : ∀ metric, ∀ child ∈ node.children, ∀ ids,
      compute' metric child (ids.map f) = compute metric child ids)
    (candidates : List (Candidate ι)) (name : String) :
    measureAll compute' node (candidates.map (Candidate.map f)) name =
      List.map (Candidate.map f) <$> measureAll compute node candidates name := by
  unfold measureAll
  cases found : node.child? name with
  | none => rfl
  | some child =>
      have member : child ∈ node.children := List.mem_of_find?_eq_some found
      simp only
      cases Method.find child.typeName none with
      | error e => rfl
      | ok method =>
          cases method with
          | metric metric =>
              show (candidates.map (Candidate.map f)).mapM _ = List.map _ <$> candidates.mapM _
              rw [List.mapM_map, ← mapM_then]
              congr 1
              funext candidate
              simp only [bind_assoc, pure_bind]
              show compute' metric child (candidate.ids.map f) >>= _ = _
              rw [same metric child member]
              rfl
          | _ => rfl

theorem measures_map {compute : Metric → Node → List ι → Except Error Value}
    {compute' : Metric → Node → List κ → Except Error Value} {f : ι → κ}
    {node : Node} (same : ∀ metric, ∀ child ∈ node.children, ∀ ids,
      compute' metric child (ids.map f) = compute metric child ids)
    (candidates : List (Candidate ι)) (names : List String) :
    names.foldlM (measureAll compute' node) (candidates.map (Candidate.map f)) =
      List.map (Candidate.map f) <$> names.foldlM (measureAll compute node) candidates := by
  induction names generalizing candidates with
  | nil => rfl
  | cons name names ih =>
      rw [List.foldlM_cons, List.foldlM_cons, measureAll_map same]
      cases measureAll compute node candidates name with
      | error e => rfl
      | ok measured => exact ih measured

theorem among_map {compute : Metric → Node → List ι → Except Error Value}
    {compute' : Metric → Node → List κ → Except Error Value} {f : ι → κ}
    {node : Node} (same : ∀ metric, ∀ child ∈ node.children, ∀ ids,
      compute' metric child (ids.map f) = compute metric child ids)
    (order : BucketOrder) (size : Option Nat) (grouping : Grouping ι) :
    among compute' node order size (grouping.mapRows f) =
      Prod.map (List.map (Candidate.map f)) id <$> among compute node order size grouping := by
  have candidates : (grouping.mapRows f).groups.map .ofGroup =
      (grouping.groups.map .ofGroup).map (Candidate.map f) := by
    simp [Grouping.mapRows, Groups.mapRows, Candidate.map, Candidate.ofGroup, Function.comp_def]
  unfold among
  rw [candidates, measures_map same]
  cases order.metricChildren.foldlM (measureAll compute node) (grouping.groups.map .ofGroup) with
  | error e => rfl
  | ok measured => exact congrArg Except.ok (cut_map f order size grouping.folded measured)

theorem select_map {compute : Metric → Node → List ι → Except Error Value}
    {compute' : Metric → Node → List κ → Except Error Value} {f : ι → κ}
    {node : Node} (same : ∀ metric, ∀ child ∈ node.children, ∀ ids,
      compute' metric child (ids.map f) = compute metric child ids)
    (limits : Limits) (method : Bucketing) (grouping : Except Error (Grouping ι)) :
    select compute' node limits method (Grouping.mapRows f <$> grouping) =
      Prod.map (List.map (Candidate.map f)) id <$> select compute node limits method grouping := by
  unfold select
  cases BucketOrder.ofNode? node with
  | error e => rfl
  | ok order =>
      cases node.natParam "size" with
      | error e => rfl
      | ok size =>
          cases grouping with
          | error e => rfl
          | ok grouping => exact among_map same _ _ grouping

end Selection

/-! ## Selecting from rows -/

/-- Compute a metric of rows at hand. -/
def Metric.ofRows (metric : Metric) (node : Node) (rows : List Row) : Except Error Value :=
  metric.compute node (.all rows.toArray)

theorem Metric.ofRows_toList (metric : Metric) (node : Node) (set : RowSet) :
    metric.ofRows node set.toList = metric.compute node set :=
  compute_of_toList metric (RowSet.toList_all _)

/-- Select buckets of rows at hand. -/
def selectRows (limits : Limits) (method : Bucketing) (node : Node) (rows : List Row) :
    Except Error (List (Candidate Row) × Option Nat) :=
  Selection.select Metric.ofRows node limits method (method.groupRows node limits rows)

/-- Selecting from a row set is selecting from the rows it stands for. -/
theorem selectRows_toList (limits : Limits) (method : Bucketing) (node : Node) (set : RowSet) :
    selectRows limits method node set.toList =
      Prod.map (List.map (Candidate.map set.row)) id <$> selectBuckets limits method node set := by
  have selected : selectBuckets limits method node set =
      Selection.select (fun metric child ids => metric.compute child (set.select ids)) node limits
        method (method.group node set limits) := rfl
  rw [selected, selectRows, Bucketing.groupRows_toList]
  exact Selection.select_map (fun metric child _ ids =>
    metric.ofRows_toList child (set.select ids)) limits method _

end Rollup
