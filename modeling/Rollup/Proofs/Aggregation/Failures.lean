import Rollup.Proofs.Aggregation.Columns
import Rollup.Proofs.Aggregation.Faults
import Rollup.Proofs.Aggregation.Resolve
import Rollup.Proofs.Aggregation.Validation
import Rollup.Proofs.Rows

/-! # How building fails

An error of building is an error of one node, either the one that is built or one below it. The node
has a parameter that cannot be read, or finds a row without its column, a value in which it can see
nothing, or more buckets than the limit. Resolving fails for faults of the request only, or breaks
down for want of memory.
-/

namespace Rollup

/-- One of the nodes of a forest, or of those below them. -/
inductive Forest.Holds : List Node → Node → Prop where
  | top {nodes : List Node} {node : Node} : node ∈ nodes → Holds nodes node
  | under {nodes : List Node} {node other : Node} :
      node ∈ nodes → Holds node.children other → Holds nodes other

theorem Forest.not_holds_nil {node : Node} : ¬ Holds [] node := by
  rintro (member | ⟨member, -⟩) <;> cases member

/-- A forest has its first node, those below it, and those of the rest. -/
theorem Forest.holds_cons {node other : Node} {nodes : List Node} :
    Holds (node :: nodes) other ↔ other = node ∨ Holds node.children other ∨ Holds nodes other := by
  constructor
  · rintro (member | ⟨member, holds⟩)
    · exact (List.mem_cons.mp member).imp_right fun later => .inr (.top later)
    · rcases List.mem_cons.mp member with rfl | later
      · exact .inr (.inl holds)
      · exact .inr (.inr (.under later holds))
  · rintro (rfl | below | later)
    · exact .top List.mem_cons_self
    · exact .under List.mem_cons_self below
    · cases later with
      | top member => exact .top (List.mem_cons_of_mem _ member)
      | under member holds => exact .under (List.mem_cons_of_mem _ member) holds

/-- Errors that a node of some method may raise over rows by itself. -/
inductive Node.Raises (limits : Limits) (rows : Array Row) (node : Node) :
    Method → Error → Prop where
  /-- A pipeline that is taken for something else. -/
  | misplaced {pipeline : Pipeline} : ¬ node.isPipeline →
      Raises limits rows node (.pipeline pipeline) (.invalidAggregation node.name .notBuiltFromRows)
  | field {method : Method} {e : Error} : method.kind ≠ .pipeline → node.requireField = .error e →
      Raises limits rows node method e
  | percents {e : Error} : Percentiles.percentsOf node = .error e →
      Raises limits rows node (.metric .percentiles) e
  | order {method : Bucketing} {e : Error} : BucketOrder.ofNode? node = .error e →
      Raises limits rows node (.bucketing method) e
  | size {method : Bucketing} {e : Error} : node.natParam "size" = .error e →
      Raises limits rows node (.bucketing method) e
  | scheme {method : Bucketing} {field : String} {e : Error} :
      method.schemeOf node limits field = .error e → Raises limits rows node (.bucketing method) e
  /-- Gaps that cannot be filled. -/
  | gaps {method : Bucketing} {field : String} {scheme : Scheme} {points : List Int} {e : Error} :
      method.schemeOf node limits field = .ok scheme → scheme.gaps points = .error e →
        Raises limits rows node (.bucketing method) e
  | column {method : Method} {field : String} {row : Row} : node.field = some field → row ∈ rows →
      row.lookup field = none → Raises limits rows node method (.missingColumn node.name field)
  | value {method : Method} {field text : String} :
      Raises limits rows node method (.invalidValue node.name field text)
  | buckets {method : Bucketing} :
      Raises limits rows node (.bucketing method) (.tooManyBuckets limits.buckets)

/-- Errors that the nodes of a forest, or those below them, may raise over rows. -/
inductive Forest.Raises (limits : Limits) (rows : Array Row) (nodes : List Node) : Error → Prop where
  | unknown {node : Node} {e : Error} : Holds nodes node →
      Method.find node.typeName none = .error e → Raises limits rows nodes e
  | node {node : Node} {method : Method} {e : Error} : Holds nodes node →
      Method.ofName? node.typeName = some method → node.Raises limits rows method e →
        Raises limits rows nodes e

theorem Forest.Holds.grow {nodes nodes' : List Node} {node : Node} (h : Holds nodes node)
    (sub : nodes ⊆ nodes') : Holds nodes' node := by
  cases h with
  | top member => exact .top (sub member)
  | under member holds => exact .under (sub member) holds

theorem Forest.Holds.named_subset {nodes : List Node} {node : Node} (h : Holds nodes node) :
    node.named ⊆ named nodes := by
  induction h with
  | top member => exact named_subset_of_mem member
  | @under nodes node other member holds ih =>
      exact List.Subset.trans ih
        (List.Subset.trans (named_children_subset node) (named_subset_of_mem member))

theorem Forest.Raises.mono {limits : Limits} {rows : Array Row} {nodes nodes' : List Node}
    {e : Error} (h : Raises limits rows nodes e)
    (sub : ∀ node, Holds nodes node → Holds nodes' node) : Raises limits rows nodes' e := by
  cases h with
  | unknown holds unknown => exact .unknown (sub _ holds) unknown
  | node holds named raises => exact .node (sub _ holds) named raises

section Node

variable {limits : Limits} {node : Node} {set : RowSet} {method : Method}

theorem column_raises {field : String} (asked : node.field = some field) :
    RaisesOnly (node.Raises limits set.rows method) (set.column node.name field) := by
  rw [RowSet.column_eq]
  refine .mapM fun id _ => .bind ?_ fun _ => .ok
  rw [cell]
  cases found : (set.row id).lookup field with
  | some value => exact .ok
  | none => exact .error (.column asked (Array.getElem_mem id.isLt) found)

/-- What reads the column of a node. -/
theorem raises_of_column {α : Type} (reads : method.kind ≠ .pipeline)
    {f : String → List (Fin set.rows.size × Json) → Except Error α}
    (rest : ∀ field values, RaisesOnly (node.Raises limits set.rows method) (f field values)) :
    RaisesOnly (node.Raises limits set.rows method)
      (node.requireField >>= fun field => set.column node.name field >>= f field) := by
  refine .bind_ok (fun e fault => .field reads fault) fun field asked => ?_
  exact .bind (column_raises (Node.field_of_requireField asked)) (rest field)

/-! ## Metrics -/

theorem numbers_raises (reads : method.kind ≠ .pipeline) :
    RaisesOnly (node.Raises limits set.rows method) (Metric.numbers node set) := by
  refine raises_of_column reads fun field values => .bind (.mapM fun ⟨_, value⟩ _ => ?_) fun _ => .ok
  dsimp only
  split
  · exact .ok
  · exact .ok
  · exact .error .value

theorem countValues_raises (reads : method.kind ≠ .pipeline) :
    RaisesOnly (node.Raises limits set.rows method) (Metric.countValues node set) :=
  raises_of_column reads fun _ _ => .ok

theorem countDistinct_raises (reads : method.kind ≠ .pipeline) :
    RaisesOnly (node.Raises limits set.rows method) (Metric.countDistinct node set) := by
  refine raises_of_column reads fun field values => .bind (.mapM fun ⟨_, value⟩ _ => ?_) fun _ => .ok
  dsimp only
  split
  · exact .ok
  · exact .error .value

theorem metric_raises (metric : Metric) :
    RaisesOnly (node.Raises limits set.rows (.metric metric)) (metric.compute node set) := by
  have numbers (metric : Metric) :
      RaisesOnly (node.Raises limits set.rows (.metric metric)) (Metric.numbers node set) :=
    numbers_raises (by simp [Method.kind])
  cases metric with
  | valueCount => exact .bind (countValues_raises (by simp [Method.kind])) fun _ => .ok
  | cardinality => exact .bind (countDistinct_raises (by simp [Method.kind])) fun _ => .ok
  | percentiles =>
      exact .bind (numbers _) fun _ => .bind (fun e fault => .percents fault) fun _ => .ok
  | _ => exact .bind (numbers _) fun _ => .ok

/-! ## Groups -/

theorem place_raises {bucketing : Bucketing} {field : String} {scheme : Scheme}
    (chosen : bucketing.schemeOf node limits field = .ok scheme) (value : Json) :
    RaisesOnly (node.Raises limits set.rows method) (scheme.place value) := by
  cases bucketing with
  | terms =>
      cases chosen
      refine .bind ?_ fun _ => .ok
      unfold Terms.keyFor
      split
      · exact .ok
      · exact .error .value
  | histogram =>
      obtain ⟨params, -, ⟨⟩⟩ := bind_eq_ok.mp chosen
      refine .bind ?_ fun _ => .ok
      unfold Histogram.indexOf
      split
      · exact .ok
      · split
        · exact .ok
        · exact .error .value
      · exact .error .value
  | dateHistogram =>
      obtain ⟨interval, -, chosen⟩ := bind_eq_ok.mp chosen
      obtain ⟨minCount, -, ⟨⟩⟩ := bind_eq_ok.mp chosen
      refine .bind ?_ fun _ => .ok
      unfold DateHistogram.startOf
      split
      · exact .ok
      · split
        · exact .ok
        · exact .error .value

theorem group_raises (bucketing : Bucketing) :
    RaisesOnly (node.Raises limits set.rows (.bucketing bucketing))
      (bucketing.group node set limits) := by
  rw [Bucketing.group_eq]
  refine .bind_ok (fun e fault => .field (by simp [Method.kind]) fault) fun field asked => ?_
  refine .bind_ok (fun e fault => .scheme fault) fun scheme chosen => ?_
  refine .bind (column_raises (Node.field_of_requireField asked)) fun values => .map ?_
  refine .bind (.mapM fun value _ => place_raises chosen value.2) fun places => ?_
  exact .bind (fun e fault => .gaps chosen fault) fun gaps => .ok

/-- What a node raises by itself. -/
theorem Forest.Raises.itself (named : Method.ofName? node.typeName = some method) {e : Error}
    (h : node.Raises limits set.rows method e) : Forest.Raises limits set.rows [node] e :=
  .node (.top (List.mem_singleton_self node)) named h

/-- What is raised below a node. -/
theorem Forest.Raises.under (node : Node) {rows : Array Row} {e : Error}
    (h : Forest.Raises limits rows node.children e) : Forest.Raises limits rows [node] e :=
  h.mono fun _ => .under (List.mem_singleton_self node)

theorem addMetric_raises (candidates : List (Candidate (Fin set.rows.size))) (name : String) :
    RaisesOnly (Forest.Raises limits set.rows node.children)
      (addMetric node set candidates name) := by
  unfold addMetric
  split
  · exact .ok
  · rename_i child found
    have holds : Forest.Holds node.children child := .top (List.mem_of_find?_eq_some found)
    refine .bind_ok (fun e fault => .unknown holds fault) fun method named => ?_
    split
    · rename_i metric
      refine .mapM fun candidate _ => .bind (fun e fault => ?_) fun _ => .ok
      have computed : RaisesOnly (child.Raises limits set.rows (.metric metric))
          (metric.compute child (set.select candidate.ids)) := metric_raises metric
      exact .node holds (Method.find_eq_ok.mp named) (computed e fault)
    · exact .ok

theorem selectBuckets_raises {bucketing : Bucketing}
    (named : Method.ofName? node.typeName = some (.bucketing bucketing)) :
    RaisesOnly (Forest.Raises limits set.rows [node]) (selectBuckets limits bucketing node set) :=
  .bind (fun _ fault => .itself named (.order fault)) fun _ =>
    .bind (fun _ fault => .itself named (.size fault)) fun _ =>
      .bind (fun e fault => .itself named (group_raises bucketing e fault)) fun _ =>
        .bind (.foldlM fun candidates name _ =>
          (addMetric_raises candidates name).imp fun _ => .under node) fun _ => .ok

end Node

/-! ## Building -/

/-- Work whose errors are all of some kind, whatever was created before. -/
def RaisesWork (kind : Error → Prop) {α : Type} (work : BuildM α) : Prop :=
  ∀ created, RaisesOnly kind (work.run created)

namespace RaisesWork

variable {α β : Type} {kind : Error → Prop}

theorem pure (a : α) : RaisesWork kind (pure a) := fun _ => .ok

theorem lift {x : Except Error α} (h : RaisesOnly kind x) : RaisesWork kind (liftM x) :=
  fun _ => .bind h fun _ => .ok

theorem imp {kind' : Error → Prop} (sub : ∀ e, kind e → kind' e) {work : BuildM α}
    (h : RaisesWork kind work) : RaisesWork kind' work :=
  fun created => (h created).imp sub

theorem bind {work : BuildM α} {f : α → BuildM β} (head : RaisesWork kind work)
    (rest : ∀ a, RaisesWork kind (f a)) : RaisesWork kind (work >>= f) := by
  intro created
  rw [StateT.run_bind]
  exact .bind (head created) fun made => rest made.1 made.2

/-- Going on after a lifted computation matters only with what it gave. -/
theorem lift_bind {x : Except Error α} {f : α → BuildM β} (head : RaisesOnly kind x)
    (rest : ∀ a, x = .ok a → RaisesWork kind (f a)) : RaisesWork kind (liftM x >>= f) := by
  cases x with
  | error e => exact fun _ => .error (head e rfl)
  | ok a => exact rest a rfl

theorem mapM {f : α → BuildM β} {items : List α} (each : ∀ item ∈ items, RaisesWork kind (f item)) :
    RaisesWork kind (items.mapM f) := by
  induction items with
  | nil => exact pure _
  | cons item items ih =>
      rw [List.forall_mem_cons] at each
      rw [List.mapM_cons]
      exact each.1.bind fun b => (ih each.2).bind fun bs => pure _

theorem reserve {limits : Limits} (spent : kind (.tooManyBuckets limits.buckets)) (count : Nat) :
    RaisesWork kind (reserve limits count) := by
  intro created
  unfold Rollup.reserve
  simp only [StateT.run_bind, StateT.run_get, pure_bind]
  split
  · exact .error spent
  · exact .ok

end RaisesWork

mutual

theorem build_raises (limits : Limits) : ∀ (node : Node) (set : RowSet), ¬ node.isPipeline →
    RaisesWork (Forest.Raises limits set.rows [node]) (build limits set node)
  | ⟨name, typeName, kind, field, params, children⟩, set, plain => by
      rw [build]
      have holds := Forest.Holds.top
        (List.mem_singleton_self (⟨name, typeName, kind, field, params, children⟩ : Node))
      refine .lift_bind (fun e fault => .unknown holds fault) fun method named => ?_
      have named := Method.find_eq_ok.mp named
      cases method with
      | metric metric =>
          refine .lift_bind (fun e fault => ?_) fun _ _ => .pure _
          exact .node holds named (metric_raises metric e fault)
      | pipeline pipeline => exact fun _ => .error (.node holds named (.misplaced plain))
      | bucketing method =>
          refine .lift_bind (selectBuckets_raises named) fun selected _ =>
            (RaisesWork.reserve (.node holds named .buckets) _).bind fun _ => ?_
          refine (RaisesWork.mapM fun candidate _ => ?_).bind fun _ => .pure _
          refine RaisesWork.bind ?_ fun _ => .pure _
          exact (buildAll_raises limits children (set.select candidate.ids) _).imp fun _ =>
            .under ⟨name, typeName, kind, field, params, children⟩

theorem buildAll_raises (limits : Limits) : ∀ (nodes : List Node) (set : RowSet)
    (metrics : Entries Value),
    RaisesWork (Forest.Raises limits set.rows nodes) (buildAll limits set metrics nodes)
  | [], set, metrics => by
      rw [buildAll]
      exact .pure _
  | node :: nodes, set, metrics => by
      have rest : RaisesWork (Forest.Raises limits set.rows (node :: nodes))
          (buildAll limits set metrics nodes) :=
        (buildAll_raises limits nodes set metrics).imp fun _ h => h.mono fun _ holds =>
          holds.grow (List.subset_cons_self node nodes)
      rw [buildAll]
      split
      case isTrue => exact rest
      case isFalse plain =>
          split
          · exact (RaisesWork.pure _).bind fun _ => rest.bind fun _ => .pure _
          · have first := (build_raises limits node set plain).imp fun _ h => h.mono fun _ holds =>
              holds.grow (List.cons_subset_cons node (List.nil_subset nodes))
            exact first.bind fun _ => rest.bind fun _ => .pure _

end

/-! ## Complete rows -/

/-- Errors that building may end with where no column is absent. -/
inductive OfBuilding : Error → Prop where
  | request {e : Error} : OfRequest e → OfBuilding e
  | value {aggregation field value : String} : OfBuilding (.invalidValue aggregation field value)
  | buckets {limit : Nat} : OfBuilding (.tooManyBuckets limit)

namespace RowSet

/-- Rows that have some columns, all of them. -/
def Complete (columns : List String) (set : RowSet) : Prop :=
  ∀ id, ∀ column ∈ columns, ((set.row id).lookup column).isSome

theorem Complete.mono {columns fewer : List String} {set : RowSet} (complete : set.Complete columns)
    (sub : fewer ⊆ columns) : set.Complete fewer :=
  fun id column member => complete id column (sub member)

theorem Complete.found {columns : List String} {set : RowSet} (complete : set.Complete columns)
    {row : Row} (hrow : row ∈ set.rows) {column : String} (member : column ∈ columns) :
    row.lookup column ≠ none := by
  obtain ⟨i, bound, rfl⟩ := Array.mem_iff_getElem.mp hrow
  exact Option.isSome_iff_ne_none.mp (complete ⟨i, bound⟩ column member)

end RowSet

section Schemes

variable {node : Node} {limits : Limits}

theorem histogramSpan_raises (params : Histogram.Params) (points : List Int) :
    RaisesOnly OfContent (Histogram.filledSpan node params points) := by
  unfold Histogram.filledSpan
  split
  · exact .ok
  · dsimp only
    split
    · split
      · exact .ok
      · exact .error rfl
    · exact .error rfl

theorem dateSpan_raises (interval : Calendar.Interval) (points : List Int) :
    RaisesOnly OfContent (DateHistogram.filledSpan node interval points) := by
  refine .bind (extendedBounds_raises node _ _) fun bounds => ?_
  split
  · exact .ok
  · split
    · split
      · exact .ok
      · exact .error rfl
    · exact .error rfl

theorem indices_raises {kind : Error → Prop} (spent : kind (.tooManyBuckets limits.buckets))
    (first last : Int) : RaisesOnly kind (Histogram.indices limits first last) := by
  unfold Histogram.indices
  dsimp only
  split
  · exact .ok
  · exact .error spent

theorem schemeOf_raises (method : Bucketing) (field : String) :
    RaisesOnly OfContent (method.schemeOf node limits field) := by
  cases method with
  | terms => exact .ok
  | histogram => exact .bind (histogramParams_raises node) fun _ => .ok
  | dateHistogram =>
      exact .bind (intervalOf_raises node) fun _ => .bind (minCount_raises node) fun _ => .ok

/-- Gaps are filled, unless there are too many, or the span to fill cannot be found. -/
theorem gaps_raises {kind : Error → Prop} (spent : kind (.tooManyBuckets limits.buckets))
    {method : Bucketing} {field : String} {scheme : Scheme}
    (chosen : method.schemeOf node limits field = .ok scheme) {points : List Int}
    (histogram : method = .histogram → ∀ params, Histogram.Params.ofNode node = .ok params →
      params.minCount = 0 → RaisesOnly kind (Histogram.filledSpan node params points))
    (date : method = .dateHistogram → ∀ interval, DateHistogram.intervalOf node = .ok interval →
      node.minCount = .ok 0 → RaisesOnly kind (DateHistogram.filledSpan node interval points)) :
    RaisesOnly kind (scheme.gaps points) := by
  cases method with
  | terms =>
      cases chosen
      exact .ok
  | histogram =>
      obtain ⟨params, read, ⟨⟩⟩ := bind_eq_ok.mp chosen
      unfold Histogram.scheme
      dsimp only
      split
      case isTrue => exact .ok
      case isFalse none =>
          refine .bind (histogram rfl params read (not_not.mp none)) fun span => ?_
          split
          · exact .ok
          · exact .bind (indices_raises spent _ _) fun _ => .ok
  | dateHistogram =>
      obtain ⟨interval, read, chosen⟩ := bind_eq_ok.mp chosen
      obtain ⟨minCount, count, ⟨⟩⟩ := bind_eq_ok.mp chosen
      unfold DateHistogram.scheme
      dsimp only
      split
      case isTrue => exact .ok
      case isFalse none =>
          obtain rfl := not_not.mp none
          refine .bind (date rfl interval read count) fun span => ?_
          split
          · exact .ok
          · split
            · exact .ok
            · exact .error spent

end Schemes

/-- Building fails for a fault of the request, for a value, for the limit on buckets, or for a column
that is absent. -/
theorem Forest.Raises.ofBuilding_or_column {limits : Limits} {rows : Array Row} {nodes : List Node}
    {e : Error} (h : Raises limits rows nodes e) :
    OfBuilding e ∨ ∃ node field, Holds nodes node ∧ node.field = some field ∧
      (∃ row ∈ rows, row.lookup field = none) ∧ e = .missingColumn node.name field := by
  cases h with
  | unknown holds unknown => exact .inl (.request (find_raises _ _ e unknown).ofRequest)
  | @node node method e holds named raises =>
      cases raises with
      | misplaced => exact .inl (.request rfl)
      | field _ fault => exact .inl (.request (requireField_raises node e fault).ofRequest)
      | percents fault => exact .inl (.request (percentsOf_raises node e fault).ofRequest)
      | order fault => exact .inl (.request (order_raises node e fault).ofRequest)
      | size fault => exact .inl (.request (natParam_raises node "size" e fault).ofRequest)
      | scheme fault => exact .inl (.request (schemeOf_raises _ _ e fault).ofRequest)
      | gaps chosen fault =>
          refine .inl (gaps_raises .buckets chosen (fun _ params _ _ => ?_)
            (fun _ interval _ _ => ?_) e fault)
          · exact (histogramSpan_raises params _).ofRequest.imp fun _ => .request
          · exact (dateSpan_raises interval _).ofRequest.imp fun _ => .request
      | @column _ field row asked hrow absent =>
          exact .inr ⟨node, field, holds, asked, ⟨row, hrow, absent⟩, rfl⟩
      | value => exact .inl .value
      | buckets => exact .inl .buckets

/-- Where no column is absent, building fails for a fault of the request, for a value or for the
limit on buckets. -/
theorem Forest.Raises.ofBuilding {limits : Limits} {set : RowSet} {nodes : List Node}
    (complete : set.Complete (Forest.named nodes)) {e : Error}
    (h : Raises limits set.rows nodes e) : OfBuilding e := by
  rcases h.ofBuilding_or_column with fault | ⟨node, field, holds, asked, ⟨row, hrow, absent⟩, -⟩
  · exact fault
  · exact absurd absent (complete.found hrow (holds.named_subset (named_of_field asked)))

/-- Building does not break down. -/
theorem Forest.Raises.ne_breakdown {limits : Limits} {rows : Array Row} {nodes : List Node}
    {e : Error} (h : Raises limits rows nodes e) : e ≠ .breakdown := by
  rintro rfl
  rcases h.ofBuilding_or_column with fault | ⟨node, field, -, -, -, same⟩
  · cases fault with
    | request fault => cases fault
  · cases same

/-! ## Resolving -/

theorem siblingValues_raises (node : Node) (path : BucketsPath) (results : Entries Result) :
    RaisesOnly OfContent (siblingValues node path results) := by
  unfold siblingValues
  dsimp only
  split
  · exact .error rfl
  · split
    all_goals first
      | exact .ok
      | exact .error rfl

theorem overSequence_raises (node : Node) (input : SiblingValues)
    (f : List (Option Float) → List (Option Float)) :
    RaisesOnly OfContent (Pipeline.overSequence node input f) := by
  unfold Pipeline.overSequence
  split
  · exact .error rfl
  · exact .bind (gapPolicy_raises node) fun _ => .ok

section Resolving

variable [Memory]

/-- A forest that asks, at any depth, for a larger window than memory can be set aside for. -/
def Forest.Overreaches (nodes : List Node) : Prop := ∃ node, Holds nodes node ∧ node.Overreaches

/-- Errors that resolving the pipelines of a forest may end with. -/
inductive Forest.OfResolving (nodes : List Node) : Error → Prop where
  | request {e : Error} : OfContent e → OfResolving nodes e
  | breakdown : Overreaches nodes → OfResolving nodes .breakdown

theorem Forest.OfResolving.mono {nodes nodes' : List Node} {e : Error} (h : OfResolving nodes e)
    (sub : ∀ node, Holds nodes node → Holds nodes' node) : OfResolving nodes' e := by
  cases h with
  | request fault => exact .request fault
  | breakdown overreaches =>
      obtain ⟨node, holds, beyond⟩ := overreaches
      exact .breakdown ⟨node, sub node holds, beyond⟩

/-- What resolving the levels below a node may end with. -/
theorem Forest.OfResolving.under (node : Node) {e : Error} (h : OfResolving node.children e) :
    OfResolving [node] e :=
  h.mono fun _ => .under (List.mem_singleton_self node)

theorem RaisesOnly.ofResolving {α : Type} {x : Except Error α} (h : RaisesOnly OfContent x)
    (nodes : List Node) : RaisesOnly (Forest.OfResolving nodes) x :=
  h.imp fun _ => .request

theorem pipeline_raises {pipeline : Pipeline} {node : Node} (is : node.isPipeline)
    (named : Method.ofName? node.typeName = some (.pipeline pipeline)) (input : SiblingValues) :
    RaisesOnly (Forest.OfResolving [node]) (pipeline.compute node input) := by
  cases pipeline with
  | derivative => exact (overSequence_raises node input _).ofResolving _
  | cumulativeSum =>
      cases input with
      | scalar value => exact .ok
      | sequence values =>
          exact (overSequence_raises node (.sequence values) (Pipeline.runningSums 0.0)).ofResolving _
  | movingAvg =>
      refine .bind_ok ((windowOf_raises node).ofResolving _) fun window windowed => .bind ?_ fun _ =>
        (overSequence_raises node input _).ofResolving _
      intro e failed
      obtain ⟨beyond, rfl⟩ := Memory.setAside_eq_error_iff.mp failed
      have holds : Forest.Holds [node] node := .top (List.mem_singleton_self node)
      exact .breakdown ⟨node, holds, is, named, window, windowed, beyond⟩
  | reduce reducer =>
      cases input with
      | scalar value => exact .ok
      | sequence values => exact .bind ((gapPolicy_raises node).ofResolving _) fun _ => .ok

theorem resolvePipelines_raises (nodes : List Node) (results : Entries Result) :
    RaisesOnly (Forest.OfResolving nodes) (resolvePipelines nodes results) := by
  refine .foldlM fun results node member => ?_
  obtain ⟨member, is⟩ := List.mem_filter.mp member
  refine .bind_ok ((find_raises _ _).ofResolving _) fun method found => ?_
  split
  · have computed (pipeline : Pipeline)
        (named : Method.ofName? node.typeName = some (.pipeline pipeline)) (input : SiblingValues) :
        RaisesOnly (Forest.OfResolving nodes) (pipeline.compute node input) :=
      (pipeline_raises is named input).imp fun _ fault => fault.mono fun _ holds =>
        holds.grow (List.cons_subset.mpr ⟨member, List.nil_subset nodes⟩)
    refine .bind ((path_raises node).ofResolving _) fun path => .bind
      ((siblingValues_raises node path results).ofResolving _) fun input => .bind ?_ fun _ => .ok
    exact computed _ (Method.find_eq_ok.mp found) input
  · exact .ok

mutual

theorem resolveBelow_raises : ∀ (node : Node) (result : Result),
    RaisesOnly (Forest.OfResolving [node]) (resolveBelow node result)
  | ⟨name, typeName, kind, field, params, children⟩, .buckets buckets otherCount => by
      have below {α : Type} {x : Except Error α} (h : RaisesOnly (Forest.OfResolving children) x) :
          RaisesOnly (Forest.OfResolving [⟨name, typeName, kind, field, params, children⟩]) x :=
        h.imp fun _ => .under ⟨name, typeName, kind, field, params, children⟩
      rw [resolveBelow]
      split
      · refine .bind (.mapM fun bucket _ => ?_) fun _ => .ok
        exact .bind (below (resolvePipelines_raises children _)) fun results =>
          .bind (below (resolveAllBelow_raises children results)) fun _ => .ok
      · exact .ok
  | ⟨name, typeName, kind, field, params, children⟩, .value value => .ok
  | ⟨name, typeName, kind, field, params, children⟩, .series values => .ok

theorem resolveAllBelow_raises : ∀ (nodes : List Node) (results : Entries Result),
    RaisesOnly (Forest.OfResolving nodes) (resolveAllBelow results nodes)
  | [], results => .ok
  | node :: nodes, results => by
      have rest : RaisesOnly (Forest.OfResolving (node :: nodes)) (resolveAllBelow results nodes) :=
        (resolveAllBelow_raises nodes results).imp fun _ fault => fault.mono fun _ holds =>
          holds.grow (List.subset_cons_self node nodes)
      rw [resolveAllBelow]
      split
      · exact rest
      · have first := (resolveBelow_raises node ‹Result›).imp fun _ fault => fault.mono fun _ holds =>
          holds.grow (List.cons_subset_cons node (List.nil_subset nodes))
        exact .bind first fun _ => .bind rest fun _ => .ok

end

theorem resolve_raises (nodes : List Node) (results : Entries Result) :
    RaisesOnly (Forest.OfResolving nodes) (resolve nodes results) :=
  .bind (resolvePipelines_raises nodes results) fun piped => resolveAllBelow_raises nodes piped

end Resolving

end Rollup
