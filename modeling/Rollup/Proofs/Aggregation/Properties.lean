import Rollup.Proofs.Aggregation.Published

/-! # Properties of metrics

Validation checks a property against the shape of a metric. A metric that is computed of a number has
every property that passes, but for one case: percentiles have the percents that their node asks for,
while any percent passes.
-/

namespace Rollup

open Forest

namespace Node

/-- One of some rows has a number in the field of a node. -/
def Numeric (node : Node) (rows : List Row) : Prop :=
  ∃ field, node.field = some field ∧ ∃ row ∈ rows, ∃ n, row.lookup field = some (.number n)

/-- A property reads as one of the percents that a node asks for. -/
def AsksPercent (node : Node) (property : Option String) : Prop :=
  ∃ text percent percents, property = some text ∧ Binary64.ofString? text = some percent ∧
    Percentiles.percentsOf node = .ok percents ∧ ∃ asked ∈ percents, asked == percent

end Node

section Values

variable {metric : Metric} {node : Node} {rows : List Row} {value : Value} {property : Option String}

theorem numbers_ne_nil {numbers : List Float}
    (h : Metric.numbers node (.all rows.toArray) = .ok numbers) (numeric : node.Numeric rows) :
    numbers ≠ [] := by
  obtain ⟨field, required, h⟩ := bind_eq_ok.mp h
  obtain ⟨values, column, h⟩ := bind_eq_ok.mp h
  obtain ⟨read, each, ⟨⟩⟩ := bind_eq_ok.mp h
  obtain ⟨own, is, row, member, n, found⟩ := numeric
  obtain rfl : own = field := by
    rw [Node.requireField, is] at required
    exact Except.ok.inj required
  have cells := RowSet.column_values (.all rows.toArray) node.name own
  rw [column, RowSet.toList_all] at cells
  obtain ⟨cell, hcell, same⟩ := exists_result cells.symm member
  rw [Rollup.cell, found] at same
  cases same
  obtain ⟨⟨id, _⟩, hvalue, rfl⟩ := List.mem_map.mp hcell
  obtain ⟨number, hnumber, ⟨⟩⟩ := exists_result each hvalue
  exact List.ne_nil_of_mem (List.mem_filterMap.mpr ⟨_, hnumber, rfl⟩)

theorem Binary64.isSome_least? {numbers : List Float} (some : numbers ≠ []) :
    (Binary64.least? numbers).isSome := by
  cases numbers with
  | nil => exact absurd rfl some
  | cons x xs => rfl

theorem Binary64.isSome_greatest? {numbers : List Float} (some : numbers ≠ []) :
    (Binary64.greatest? numbers).isSome := by
  cases numbers with
  | nil => exact absurd rfl some
  | cons x xs => rfl

theorem Binary64.isSome_mean? {numbers : List Float} (some : numbers ≠ []) :
    (Binary64.mean? numbers).isSome := by
  cases numbers with
  | nil => exact absurd rfl some
  | cons x xs => rfl

/-- A record of numbers has each of its properties. -/
theorem isSome_property_stats {numbers : List Float} (some : numbers ≠ [])
    (checks : Shape.stats.checkProperty property = .ok ()) :
    ((Value.stats (.ofList numbers)).property? property).isSome := by
  cases property with
  | none => cases checks
  | some name =>
      rw [Shape.checkProperty] at checks
      split at checks
      · rename_i known
        simp only [Stats.propertyNames, List.mem_cons, List.not_mem_nil, or_false] at known
        rcases known with rfl | rfl | rfl | rfl | rfl
        · rfl
        · exact Binary64.isSome_least? some
        · exact Binary64.isSome_greatest? some
        · rfl
        · exact Binary64.isSome_mean? some
      · cases checks

theorem property_of_single {x : Option Float} (checks : Shape.single.checkProperty property = .ok ()) :
    (Value.single x).property? property = x := by
  cases property with
  | none => rfl
  | some name =>
      rw [Shape.checkProperty] at checks
      split at checks
      · rename_i is
        rw [Value.property?, if_pos is]
      · cases checks

/-- Of numbers there is a percentile for each percent. -/
theorem ofValues_eq {numbers : List Float} (some : numbers ≠ []) (percents : List Float) :
    ∃ percentile : Float → Float, Percentiles.ofValues numbers percents =
      percents.map fun p => (p, .some (percentile p)) := by
  let sorted := (numbers.mergeSort fun x y => (Binary64.compareTotal x y).isLE).toArray
  have filled : sorted.isEmpty = false := by
    have length : sorted.size = numbers.length := List.length_mergeSort _
    rw [Array.isEmpty_eq_false_iff, ← Array.size_pos_iff, length]
    exact List.length_pos_iff.mpr some
  refine ⟨Percentiles.interpolate sorted, ?_⟩
  simp only [Percentiles.ofValues]
  rw [show _ = false from filled]
  rfl

/-- Percentiles of numbers have those percents that were asked for. -/
theorem isSome_property_percentiles {numbers percents : List Float} (some : numbers ≠ []) :
    ((Value.percentiles (Percentiles.ofValues numbers percents)).property? property).isSome ↔
      ∃ text percent, property = .some text ∧ Binary64.ofString? text = .some percent ∧
        ∃ asked ∈ percents, asked == percent := by
  obtain ⟨percentile, same⟩ := ofValues_eq some percents
  rw [same]
  cases property with
  | none => exact ⟨nofun, nofun⟩
  | some text =>
      cases read : Binary64.ofString? text with
      | none => simp [Value.property?, read]
      | some percent =>
          have found : (Value.percentiles (percents.map fun p => (p, .some (percentile p)))).property?
              (.some text) = (percents.find? (· == percent)).map percentile := by
            rw [Value.property?, read, Option.bind_eq_bind, Option.bind_some, List.find?_map]
            show Option.bind (Option.map _ (percents.find? (· == percent))) _ = _
            cases percents.find? (· == percent) <;> rfl
          rw [found, Option.isSome_map, List.find?_isSome]
          constructor
          · intro hit
            exact ⟨text, percent, rfl, read, hit⟩
          · rintro ⟨_, other, ⟨⟩, read', hit⟩
            cases read.symm.trans read'
            exact hit

/-- A property that passes can be read from what is computed of a number, unless it is a percent that
is not asked for. -/
theorem isSome_property_of_compute (computed : metric.ofRows node rows = .ok value)
    (checks : metric.shape.checkProperty property = .ok ()) (numeric : node.Numeric rows) :
    (value.property? property).isSome ↔ (metric = .percentiles → node.AsksPercent property) := by
  have filled {numbers : List Float} (h : Metric.numbers node (.all rows.toArray) = .ok numbers) :=
    numbers_ne_nil h numeric
  cases metric with
  | percentiles =>
      obtain ⟨numbers, hnumbers, h⟩ := bind_eq_ok.mp computed
      obtain ⟨percents, asked, ⟨⟩⟩ := bind_eq_ok.mp h
      refine (isSome_property_percentiles (filled hnumbers)).trans ⟨?_, fun asks => ?_⟩
      · rintro ⟨text, percent, is, read, hit⟩ -
        exact ⟨text, percent, percents, is, read, asked, hit⟩
      · obtain ⟨text, percent, _, is, read, asked', hit⟩ := asks rfl
        cases asked.symm.trans asked'
        exact ⟨text, percent, is, read, hit⟩
  | stats =>
      obtain ⟨numbers, hnumbers, ⟨⟩⟩ := bind_eq_ok.mp computed
      exact iff_of_true (isSome_property_stats (filled hnumbers) checks) nofun
  | avg =>
      obtain ⟨numbers, hnumbers, ⟨⟩⟩ := bind_eq_ok.mp computed
      rw [property_of_single checks]
      exact iff_of_true (Binary64.isSome_mean? (filled hnumbers)) nofun
  | min =>
      obtain ⟨numbers, hnumbers, ⟨⟩⟩ := bind_eq_ok.mp computed
      rw [property_of_single checks]
      exact iff_of_true (Binary64.isSome_least? (filled hnumbers)) nofun
  | max =>
      obtain ⟨numbers, hnumbers, ⟨⟩⟩ := bind_eq_ok.mp computed
      rw [property_of_single checks]
      exact iff_of_true (Binary64.isSome_greatest? (filled hnumbers)) nofun
  | sum | valueCount | cardinality =>
      obtain ⟨number, -, ⟨⟩⟩ := bind_eq_ok.mp computed
      rw [property_of_single checks]
      exact iff_of_true rfl nofun

end Values

/-! ## What is asked for -/

section Asked

variable {node child : Node} {shape : Shape}

/-- The child of which validation finds a shape is a metric of this shape. -/
theorem named_of_metricShape? (checked : ∀ child ∈ node.children, ∃ method, child.Checked method)
    {name : String} (shaped : node.metricShape? name = some shape)
    (found : node.child? name = some child) :
    ∃ metric, Method.ofName? child.typeName = some (.metric metric) ∧ metric.shape = shape := by
  unfold Node.metricShape? at shaped
  rw [found, Option.bind_eq_bind, Option.bind_some] at shaped
  obtain ⟨method, checked⟩ := checked child (Node.mem_of_child? found).1
  split_ifs at shaped with is
  rw [not_not] at is
  cases method with
  | metric metric =>
      rw [checked.named] at shaped
      exact ⟨metric, checked.named, Option.some.inj shaped⟩
  | _ => cases checked.kind.trans is

/-- A clause of an accepted order reads, for each candidate, a property of the metric child that it
names, computed of the rows of the candidate. -/
theorem number_of_measured (valid : validate node.children = .ok ())
    (accepted : node.validateOrder = .ok ()) {order : BucketOrder}
    (asked : BucketOrder.ofNode? node = .ok (some order)) {groups : Groups Row}
    {candidates : List (Candidate Row)} (measured : order.metricChildren.foldlM
      (Selection.measureAll Metric.ofRows node) (groups.map .ofGroup) = .ok candidates)
    {candidate : Candidate Row} (hcandidate : candidate ∈ candidates) {clause : OrderClause}
    (hclause : clause ∈ order) {path : PropertyPath} (reads : clause.target = .metric path)
    (found : node.child? path.name = some child) :
    ∃ metric value, Method.ofName? child.typeName = some (.metric metric) ∧
      metric.ofRows child candidate.ids = .ok value ∧
      candidate.number? path = value.property? path.property ∧
      metric.shape.checkProperty path.property = .ok () := by
  obtain ⟨shape, shaped, checks⟩ := Node.checks_of_validateOrder accepted asked hclause reads
  obtain ⟨metric, named, rfl⟩ := named_of_metricShape? (checked_of_validate valid) shaped found
  have listed : path.name ∈ order.metricChildren :=
    List.mem_filterMap.mpr ⟨clause, hclause, by rw [reads]; rfl⟩
  have metricChild : node.metricChild? path.name = some (metric, child) := by
    simp [Node.metricChild?, found, named]
  obtain ⟨before, -, measured⟩ := exists_related
    ((Selection.measures_eq_ok (childrenKnown_of_validate valid)).mp measured) hcandidate
  obtain ⟨-, ids, metrics⟩ := Selection.lookup_measured measured
  obtain ⟨value, computed⟩ :=
    Selection.measured_iff.mp ⟨candidate, measured⟩ path.name listed metric child metricChild
  have known := metrics path.name
  rw [if_pos listed, metricChild] at known
  refine ⟨metric, value, named, by rw [ids]; exact computed, ?_, checks⟩
  rw [Candidate.number?, known]
  show Option.bind (metric.ofRows child before.ids).toOption _ = _
  rw [computed]
  rfl

/-- What an accepted path asks of its sibling has passed the check. -/
theorem checks_of_path {nodes : List Node} (valid : validate nodes = .ok ()) (member : node ∈ nodes)
    (is : node.isPipeline) {target : Node} {path : BucketsPath} (reads : Reads nodes node target path) :
    (∀ inner, path.target = .metric inner → ∃ shape, target.metricShape? inner.name = some shape ∧
      shape.checkProperty inner.property = .ok ()) ∧
    ∀ property, path.target = .itself property → target.kind ≠ .bucketing →
      ∃ method, target.method = .ok method ∧
        (method.shape?.getD .single).checkProperty property = .ok () := by
  have level := check_eq_ok.mp (validate_eq_ok.mp valid).1
  obtain ⟨before, after, known, -, checked⟩ := dependency_of_validatePipelines level.2 member is
  obtain ⟨other, hother, same, checks⟩ := checks_of_validateDependency checked reads.asked
  obtain rfl := eq_of_name valid hother reads.member (same.trans reads.name.symm)
  exact checks

end Asked

end Rollup
