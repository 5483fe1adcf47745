import Rollup.Proofs.Aggregation.Selection
import Rollup.Proofs.Aggregation.Validation
import Rollup.Proofs.Lookup

/-! # Measured candidates

Metrics are computed for all candidates, one name after another. As far as one candidate is
concerned, it is measured by itself: each metric that an order reads is computed of its own rows.
-/

namespace Rollup

variable {ι : Type}

theorem forall₂_exists_iff {α β γ : Type} {R : α → β → Prop} {S : β → γ → Prop} {xs : List α}
    {zs : List γ} : (∃ ys, List.Forall₂ R xs ys ∧ List.Forall₂ S ys zs) ↔
      List.Forall₂ (fun x z => ∃ y, R x y ∧ S y z) xs zs := by
  constructor
  · rintro ⟨ys, first, second⟩
    induction first generalizing zs with
    | nil =>
        cases second
        exact .nil
    | cons hR first ih =>
        cases second with
        | cons hS second => exact .cons ⟨_, hR, hS⟩ (ih second)
  · intro both
    induction both with
    | nil => exact ⟨[], .nil, .nil⟩
    | cons h rest ih =>
        obtain ⟨y, hR, hS⟩ := h
        obtain ⟨ys, first, second⟩ := ih
        exact ⟨y :: ys, .cons hR first, .cons hS second⟩

namespace Node

/-- The metric child of a name, with its method. -/
def metricChild? (node : Node) (name : String) : Option (Metric × Node) := do
  let child ← node.child? name
  match Method.ofName? child.typeName with
  | some (.metric metric) => some (metric, child)
  | _ => none

/-- Every child has a method. -/
def ChildrenKnown (node : Node) : Prop :=
  ∀ child ∈ node.children, (Method.ofName? child.typeName).isSome

theorem mem_of_child? {node child : Node} {name : String} (h : node.child? name = some child) :
    child ∈ node.children ∧ child.name = name :=
  ⟨List.mem_of_find?_eq_some h, by simpa using List.find?_some h⟩

theorem of_metricChild? {node child : Node} {name : String} {metric : Metric}
    (h : node.metricChild? name = some (metric, child)) :
    (child ∈ node.children ∧ child.name = name) ∧
      Method.ofName? child.typeName = some (.metric metric) := by
  unfold metricChild? at h
  obtain ⟨other, found, h⟩ := Option.bind_eq_some_iff.mp h
  split at h
  · cases h
    exact ⟨mem_of_child? found, ‹_›⟩
  · cases h

/-- Where validation finds the shape of a metric child, there is one. -/
theorem metricChild?_of_metricShape? {node : Node}
    (checked : ∀ child ∈ node.children, ∃ method, child.Checked method) {name : String}
    {shape : Shape} (h : node.metricShape? name = some shape) :
    ∃ metric child, node.metricChild? name = some (metric, child) ∧ metric.shape = shape ∧
      child.kind = .metric := by
  unfold metricShape? at h
  obtain ⟨child, found, h⟩ := Option.bind_eq_some_iff.mp h
  obtain ⟨method, checked⟩ := checked child (mem_of_child? found).1
  have kind := checked.kind
  split at h
  · cases h
  · rename_i is
    rw [not_not] at is
    cases method with
    | metric metric =>
        rw [checked.named] at h
        exact ⟨metric, child, by simp [metricChild?, found, checked.named], Option.some.inj h, is⟩
    | _ => rw [is] at kind; cases kind

/-- An order that is accepted reads metric children only, and properties that pass the check for their
shapes. -/
theorem checks_of_validateOrder {node : Node} (valid : node.validateOrder = .ok ())
    {order : BucketOrder} (asked : BucketOrder.ofNode? node = .ok (some order)) {clause : OrderClause}
    (member : clause ∈ order) {path : PropertyPath} (reads : clause.target = .metric path) :
    ∃ shape, node.metricShape? path.name = some shape ∧ shape.checkProperty path.property = .ok () := by
  unfold validateOrder at valid
  rw [asked] at valid
  have accepted := forM_eq_ok.mp valid clause member
  rw [reads] at accepted
  dsimp only at accepted
  split at accepted
  · cases accepted
  · rename_i shape shaped
    refine ⟨shape, shaped, ?_⟩
    split at accepted
    · assumption
    · cases accepted

end Node

namespace Selection

variable {compute : Metric → Node → List ι → Except Error Value} {node : Node}

/-- Compute the metric child of a name for one candidate. -/
def measure (compute : Metric → Node → List ι → Except Error Value) (node : Node)
    (candidate : Candidate ι) (name : String) : Except Error (Candidate ι) :=
  match node.metricChild? name with
  | none => .ok candidate
  | some (metric, child) => do
      let value ← compute metric child candidate.ids
      return { candidate with metrics := Entries.set candidate.metrics name value }

theorem measureAll_eq (known : node.ChildrenKnown) (candidates : List (Candidate ι))
    (name : String) :
    measureAll compute node candidates name =
      candidates.mapM (measure compute node · name) := by
  have unmeasured : candidates.mapM (fun c => (.ok c : Except Error (Candidate ι))) =
      .ok candidates := List.mapM_pure.trans (congrArg _ (List.map_id _))
  unfold measureAll measure Node.metricChild?
  cases found : node.child? name with
  | none => exact unmeasured.symm
  | some child =>
      obtain ⟨member, named⟩ := Node.mem_of_child? found
      obtain ⟨method, hmethod⟩ := Option.isSome_iff_exists.mp (known child member)
      simp only [Method.find_eq_ok.mpr hmethod, named]
      cases method with
      | metric metric => simp [hmethod]; rfl
      | bucketing method => simp [hmethod]; exact unmeasured.symm
      | pipeline method => simp [hmethod]; exact unmeasured.symm

/-- Measuring all candidates is measuring each of them. -/
theorem measures_eq_ok (known : node.ChildrenKnown) {names : List String}
    {candidates measured : List (Candidate ι)} :
    names.foldlM (measureAll compute node) candidates = .ok measured ↔
      List.Forall₂ (fun c m => names.foldlM (measure compute node) c = .ok m)
        candidates measured := by
  induction names generalizing candidates with
  | nil =>
      simp only [List.foldlM_nil, pure, Except.pure, Except.ok.injEq, List.forall₂_eq_eq_eq]
  | cons name names ih =>
      simp only [List.foldlM_cons, bind_eq_ok, measureAll_eq known, mapM_eq_ok, ih,
        forall₂_exists_iff]

theorem measure_of_none {candidate : Candidate ι} {name : String}
    (h : node.metricChild? name = none) : measure compute node candidate name = .ok candidate := by
  rw [measure, h]

theorem measure_eq_ok {candidate measured : Candidate ι} {name : String} {metric : Metric}
    {child : Node} (h : node.metricChild? name = some (metric, child)) :
    measure compute node candidate name = .ok measured ↔
      ∃ value, compute metric child candidate.ids = .ok value ∧
        measured = { candidate with metrics := Entries.set candidate.metrics name value } := by
  rw [measure, h]
  simp only [bind_eq_ok]
  exact exists_congr fun value => and_congr_right fun _ =>
    ⟨fun same => (Except.ok.inj same).symm, fun same => congrArg Except.ok same.symm⟩

/-- What a measured candidate knows of its group: each metric that was asked for. -/
theorem lookup_measured {names : List String} {candidate measured : Candidate ι}
    (h : names.foldlM (measure compute node) candidate = .ok measured) :
    measured.key = candidate.key ∧ measured.ids = candidate.ids ∧
      ∀ name, measured.metrics.lookup name =
        match (if name ∈ names then node.metricChild? name else none) with
        | some (metric, child) => (compute metric child candidate.ids).toOption
        | none => candidate.metrics.lookup name := by
  induction names generalizing candidate with
  | nil =>
      cases h
      exact ⟨rfl, rfl, fun name => by simp⟩
  | cons first names ih =>
      obtain ⟨middle, head, rest⟩ := bind_eq_ok.mp h
      obtain ⟨key, ids, metrics⟩ := ih rest
      cases found : node.metricChild? first with
      | none =>
          rw [measure_of_none found] at head
          cases head
          refine ⟨key, ids, fun name => ?_⟩
          rw [metrics]
          by_cases same : name = first
          · subst same
            simp [found]
          · simp [same]
      | some pair =>
          obtain ⟨metric, child⟩ := pair
          obtain ⟨value, computed, rfl⟩ := (measure_eq_ok found).mp head
          refine ⟨key, ids, fun name => ?_⟩
          rw [metrics]
          -- A name may come again: it is computed again, of the same rows.
          by_cases same : name = first
          · subst same
            by_cases later : name ∈ names <;> simp [found, later, computed, Entries.lookup_set, Except.toOption]
          · by_cases later : name ∈ names <;> simp [same, later, Entries.lookup_set]

/-- A candidate can be measured exactly if every metric can be computed of its rows. -/
theorem measured_iff {names : List String} {candidate : Candidate ι} :
    (∃ measured, names.foldlM (measure compute node) candidate = .ok measured) ↔
      ∀ name ∈ names, ∀ metric child, node.metricChild? name = some (metric, child) →
        ∃ value, compute metric child candidate.ids = .ok value := by
  induction names generalizing candidate with
  | nil => simp [pure, Except.pure]
  | cons first names ih =>
      simp only [List.foldlM_cons, bind_eq_ok, List.forall_mem_cons]
      rw [exists_comm]
      simp only [exists_and_left, ih]
      cases found : node.metricChild? first with
      | none => simp [measure_of_none found]
      | some pair =>
          obtain ⟨metric, child⟩ := pair
          simp only [measure_eq_ok found, Option.some.injEq, Prod.mk.injEq]
          constructor
          · rintro ⟨measured, ⟨value, computed, rfl⟩, rest⟩
            refine ⟨?_, rest⟩
            rintro m c ⟨rfl, rfl⟩
            exact ⟨value, computed⟩
          · rintro ⟨head, rest⟩
            obtain ⟨value, computed⟩ := head metric child ⟨rfl, rfl⟩
            exact ⟨_, ⟨value, computed, rfl⟩, rest⟩

end Selection

end Rollup
