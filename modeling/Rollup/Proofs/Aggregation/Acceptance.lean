import Rollup.Proofs.Aggregation.Failures

/-! # Building after validation

What validation has read of a node can be read again when the node is built. One fault is left to be
found by building: an end of the span to fill that lies in no bucket. Everything else that goes wrong is
due to the rows, or to the limit on buckets.
-/

namespace Rollup

/-- Errors that are due to the rows or to the limit on buckets. -/
inductive OfData : Error → Prop where
  | value {aggregation field value : String} : OfData (.invalidValue aggregation field value)
  | column {aggregation column : String} : OfData (.missingColumn aggregation column)
  | buckets {limit : Nat} : OfData (.tooManyBuckets limit)

/-- An end of the span that a node asks to fill lies in no bucket. -/
inductive Node.StrayBound (node : Node) : ParamFault → Prop where
  | index {params : Histogram.Params} {low high : Float}
      (named : Method.ofName? node.typeName = some (.bucketing .histogram))
      (read : Histogram.Params.ofNode node = .ok params) (fills : params.minCount = 0)
      (bounds : params.bounds = some (low, high))
      (outside : params.index? low = none ∨ params.index? high = none) :
      StrayBound node .outOfRange
  | first {interval : Calendar.Interval} {low high : Calendar.Instant}
      (named : Method.ofName? node.typeName = some (.bucketing .dateHistogram))
      (read : DateHistogram.intervalOf node = .ok interval) (fills : node.minCount = .ok 0)
      (bounds : DateHistogram.boundsOf node = .ok (some (low, high)))
      (outside : interval.floor low = none) :
      StrayBound node (.boundOutOfRange "min")
  | last {interval : Calendar.Interval} {low high start : Calendar.Instant}
      (named : Method.ofName? node.typeName = some (.bucketing .dateHistogram))
      (read : DateHistogram.intervalOf node = .ok interval) (fills : node.minCount = .ok 0)
      (bounds : DateHistogram.boundsOf node = .ok (some (low, high)))
      (inside : interval.floor low = some start) (outside : interval.floor high = none) :
      StrayBound node (.boundOutOfRange "max")

theorem Node.StrayBound.bucketing {node : Node} {fault : ParamFault} (stray : node.StrayBound fault) :
    ∃ bucketing, Method.ofName? node.typeName = some (.bucketing bucketing) := by
  cases stray <;> exact ⟨_, ‹_›⟩

/-- The error about such a bound. -/
def Node.Strays (node : Node) (e : Error) : Prop :=
  ∃ fault, node.StrayBound fault ∧ e = node.badParam "extended_bounds" fault

/-- Errors that building may end with after a forest is accepted. -/
inductive Forest.Remaining (nodes : List Node) : Error → Prop where
  | data {e : Error} : OfData e → Remaining nodes e
  | bound {node : Node} {e : Error} : Holds nodes node → node.Strays e → Remaining nodes e

/-! ## Reading again -/

namespace Node

variable {node : Node} {method : Method}

theorem ok_of_checkSize (h : node.checkSize = .ok ()) : ∃ size, node.natParam "size" = .ok size := by
  obtain ⟨size, read, -⟩ := bind_eq_ok.mp h
  obtain ⟨size, read, -⟩ := bind_eq_ok.mp read
  exact ⟨size, read⟩

theorem Checked.field (checked : node.Checked method) (reads : method.kind ≠ .pipeline) :
    ∃ field, node.requireField = .ok field := by
  have valid := checked.parameters
  cases method with
  | pipeline => exact absurd rfl reads
  | metric metric =>
      obtain ⟨field, read, -⟩ := bind_eq_ok.mp valid
      exact ⟨field, read⟩
  | bucketing bucketing =>
      cases bucketing
      all_goals
        obtain ⟨field, read, -⟩ := bind_eq_ok.mp valid
        exact ⟨field, read⟩

theorem Checked.percents (checked : node.Checked (.metric .percentiles)) :
    ∃ percents, Percentiles.percentsOf node = .ok percents := by
  obtain ⟨field, -, valid⟩ := bind_eq_ok.mp checked.parameters
  rw [if_pos rfl] at valid
  obtain ⟨percents, read, -⟩ := bind_eq_ok.mp valid
  exact ⟨percents, read⟩

variable {bucketing : Bucketing} (checked : node.Checked (.bucketing bucketing))

include checked

theorem Checked.order_read : ∃ order, BucketOrder.ofNode? node = .ok order := by
  have valid := checked.order checked.kind.symm
  obtain ⟨order, read, -⟩ := bind_eq_ok.mp valid
  exact ⟨order, read⟩

theorem Checked.size : ∃ size, node.natParam "size" = .ok size := by
  have valid := checked.parameters
  cases bucketing with
  | terms =>
      obtain ⟨field, -, sized⟩ := bind_eq_ok.mp valid
      exact ok_of_checkSize sized
  | histogram =>
      obtain ⟨field, -, valid⟩ := bind_eq_ok.mp valid
      exact ok_of_checkSize (check_eq_ok.mp valid).1
  | dateHistogram =>
      obtain ⟨field, -, valid⟩ := bind_eq_ok.mp valid
      exact ok_of_checkSize (check_eq_ok.mp valid).1

theorem Checked.scheme (limits : Limits) (field : String) :
    ∃ scheme, bucketing.schemeOf node limits field = .ok scheme := by
  have valid := checked.parameters
  cases bucketing with
  | terms => exact ⟨_, rfl⟩
  | histogram =>
      obtain ⟨field, -, valid⟩ := bind_eq_ok.mp valid
      obtain ⟨params, read, -⟩ := bind_eq_ok.mp (check_eq_ok.mp valid).2
      exact ⟨_, bind_eq_ok.mpr ⟨params, read, rfl⟩⟩
  | dateHistogram =>
      obtain ⟨field, -, valid⟩ := bind_eq_ok.mp valid
      obtain ⟨interval, read, valid⟩ := bind_eq_ok.mp (check_eq_ok.mp valid).2
      obtain ⟨minCount, count, -⟩ := bind_eq_ok.mp valid
      exact ⟨_, bind_eq_ok.mpr ⟨interval, read, bind_eq_ok.mpr ⟨minCount, count, rfl⟩⟩⟩

end Node

namespace Forest

theorem checked_of_holds {nodes : List Node} {node : Node} (holds : Holds nodes node)
    (valid : validate nodes = .ok ()) : ∃ method, node.Checked method := by
  induction holds with
  | top member => exact checked_of_validate valid _ member
  | under member _ ih => exact ih (below_of_validate valid _ member)

end Forest

/-! ## The span to fill -/

section Span

variable {node : Node} {limits : Limits}

/-- The span to fill cannot be found only where an end of it lies in no bucket. -/
theorem stray_of_histogramSpan {params : Histogram.Params} {points : List Int}
    (named : Method.ofName? node.typeName = some (.bucketing .histogram))
    (read : Histogram.Params.ofNode node = .ok params) (fills : params.minCount = 0) :
    RaisesOnly node.Strays (Histogram.filledSpan node params points) := by
  unfold Histogram.filledSpan
  split
  · exact .ok
  · rename_i low high bounds
    dsimp only
    cases first : params.index? low with
    | none => exact .error ⟨_, .index named read fills bounds (.inl first), rfl⟩
    | some start =>
        cases last : params.index? high with
        | none => exact .error ⟨_, .index named read fills bounds (.inr last), rfl⟩
        | some stop => exact .ok

theorem stray_of_dateSpan {interval : Calendar.Interval} {points : List Int}
    (checked : node.Checked (.bucketing .dateHistogram))
    (read : DateHistogram.intervalOf node = .ok interval) (fills : node.minCount = .ok 0) :
    RaisesOnly node.Strays (DateHistogram.filledSpan node interval points) := by
  obtain ⟨field, -, valid⟩ := bind_eq_ok.mp checked.parameters
  obtain ⟨-, -, valid⟩ := bind_eq_ok.mp (check_eq_ok.mp valid).2
  obtain ⟨-, -, valid⟩ := bind_eq_ok.mp valid
  obtain ⟨bounds, given, -⟩ := bind_eq_ok.mp valid
  unfold DateHistogram.filledSpan
  rw [given]
  cases bounds with
  | none => exact .ok
  | some bounds =>
      obtain ⟨low, high⟩ := bounds
      simp only [bind, Except.bind]
      cases first : interval.floor low with
      | none => exact .error ⟨_, .first checked.named read fills given first, rfl⟩
      | some start =>
          cases last : interval.floor high with
          | none => exact .error ⟨_, .last checked.named read fills given first last, rfl⟩
          | some stop => exact .ok

/-- A node with a stray bound fills no gaps. -/
theorem gaps_of_stray {fault : ParamFault} (stray : node.StrayBound fault) {bucketing : Bucketing}
    (named : Method.ofName? node.typeName = some (.bucketing bucketing)) {field : String}
    {scheme : Scheme} (chosen : bucketing.schemeOf node limits field = .ok scheme)
    (points : List Int) : scheme.gaps points = .error (node.badParam "extended_bounds" fault) := by
  cases stray with
  | @index params low high named' read fills bounds outside =>
      cases named.symm.trans named'
      obtain ⟨_, read', ⟨⟩⟩ := bind_eq_ok.mp chosen
      cases read.symm.trans read'
      have span : Histogram.filledSpan node params points =
          .error (node.badParam "extended_bounds" .outOfRange) := by
        rw [Histogram.filledSpan, bounds]
        rcases outside with outside | outside
        · simp [outside, throw, throwThe, MonadExceptOf.throw]
        · cases first : params.index? low <;>
            simp [first, outside, throw, throwThe, MonadExceptOf.throw]
      simp [Histogram.scheme, fills, span, bind, Except.bind]
  | first named' read fills bounds outside =>
      cases named.symm.trans named'
      obtain ⟨_, read', chosen⟩ := bind_eq_ok.mp chosen
      obtain ⟨_, fills', ⟨⟩⟩ := bind_eq_ok.mp chosen
      cases read.symm.trans read'
      cases fills.symm.trans fills'
      simp [DateHistogram.scheme, DateHistogram.filledSpan, bounds, outside, bind, Except.bind, throw,
        throwThe, MonadExceptOf.throw]
  | last named' read fills bounds inside outside =>
      cases named.symm.trans named'
      obtain ⟨_, read', chosen⟩ := bind_eq_ok.mp chosen
      obtain ⟨_, fills', ⟨⟩⟩ := bind_eq_ok.mp chosen
      cases read.symm.trans read'
      cases fills.symm.trans fills'
      simp [DateHistogram.scheme, DateHistogram.filledSpan, bounds, inside, outside, bind,
        Except.bind, throw, throwThe, MonadExceptOf.throw]

end Span

/-- What a checked node raises by itself. -/
theorem Node.Checked.raises {node : Node} {method : Method} (checked : node.Checked method)
    {limits : Limits} {rows : Array Row} {e : Error} (h : node.Raises limits rows method e) :
    OfData e ∨ node.Strays e := by
  cases h with
  | misplaced plain => simp [Node.isPipeline, ← checked.kind, Method.kind] at plain
  | field reads fault =>
      obtain ⟨field, read⟩ := checked.field reads
      cases read.symm.trans fault
  | percents fault =>
      obtain ⟨percents, read⟩ := checked.percents
      cases read.symm.trans fault
  | order fault =>
      obtain ⟨order, read⟩ := checked.order_read
      cases read.symm.trans fault
  | size fault =>
      obtain ⟨size, read⟩ := checked.size
      cases read.symm.trans fault
  | @scheme _ field _ fault =>
      obtain ⟨scheme, read⟩ := checked.scheme limits field
      cases read.symm.trans fault
  | @gaps bucketing field scheme points e chosen fault =>
      have raised : RaisesOnly (fun e => OfData e ∨ node.Strays e) (scheme.gaps points) := by
        refine gaps_raises (.inl .buckets) chosen ?_ ?_
        · rintro rfl params read fills
          exact (stray_of_histogramSpan checked.named read fills).imp fun _ => .inr
        · rintro rfl interval read fills
          exact (stray_of_dateSpan checked read fills).imp fun _ => .inr
      exact raised e fault
  | column => exact .inl .column
  | value => exact .inl .value
  | buckets => exact .inl .buckets

/-- What some nodes of an accepted forest raise. -/
theorem Forest.Raises.remaining {nodes part : List Node} (valid : Forest.validate nodes = .ok ())
    (sub : part ⊆ nodes) {limits : Limits} {rows : Array Row} {e : Error}
    (h : Forest.Raises limits rows part e) : Forest.Remaining part e := by
  cases h with
  | unknown holds unknown =>
      obtain ⟨method, checked⟩ := checked_of_holds (holds.grow sub) valid
      cases (Method.find_eq_ok.mpr checked.named).symm.trans unknown
  | node holds named raises =>
      obtain ⟨method, checked⟩ := checked_of_holds (holds.grow sub) valid
      cases named.symm.trans checked.named
      rcases checked.raises raises with fault | strays
      · exact .data fault
      · exact .bound holds strays

/-! ## A stray bound -/

section Stray

variable {node : Node} {bucketing : Bucketing} {fault : ParamFault} {limits : Limits} {set : RowSet}
  {created : Nat}

/-- Building by a bucketing method begins with choosing the buckets. -/
theorem build_run_bucketing (limits : Limits) (set : RowSet) (created : Nat)
    (named : Method.ofName? node.typeName = some (.bucketing bucketing)) :
    ∃ rest : _ → Except Error (Result × Nat),
      (build limits set node).run created = selectBuckets limits bucketing node set >>= rest := by
  obtain ⟨name, typeName, kind, field, params, children⟩ := node
  rw [build, run_liftM_bind, Method.find_eq_ok.mpr named]
  simp only [bind, Except.bind]
  exact ⟨_, run_liftM_bind (selectBuckets limits bucketing _ set) _ created⟩

/-- A node with a stray bound is never built. -/
theorem build_ne_ok_of_stray (stray : node.StrayBound fault) (made : Result × Nat) :
    (build limits set node).run created ≠ .ok made := by
  intro built
  obtain ⟨bucketing, named⟩ := stray.bucketing
  obtain ⟨rest, run⟩ := build_run_bucketing limits set created named
  rw [run] at built
  obtain ⟨selected, chosen, -⟩ := bind_eq_ok.mp built
  obtain ⟨order, -, chosen⟩ := bind_eq_ok.mp chosen
  obtain ⟨size, -, chosen⟩ := bind_eq_ok.mp chosen
  obtain ⟨grouping, grouped, -⟩ := bind_eq_ok.mp chosen
  rw [Bucketing.group_eq] at grouped
  obtain ⟨field, -, grouped⟩ := bind_eq_ok.mp grouped
  obtain ⟨scheme, shaped, grouped⟩ := bind_eq_ok.mp grouped
  obtain ⟨values, -, grouped⟩ := bind_eq_ok.mp grouped
  obtain ⟨groups, formed, -⟩ := map_eq_ok.mp grouped
  obtain ⟨places, -, formed⟩ := bind_eq_ok.mp formed
  obtain ⟨gaps, filled, -⟩ := bind_eq_ok.mp formed
  cases (gaps_of_stray stray named shaped _).symm.trans filled

/-- Over no rows building an accepted node with a stray bound fails for that bound. -/
theorem build_no_rows_of_stray {method : Method} (checked : node.Checked method)
    (stray : node.StrayBound fault) :
    (build limits (.all #[]) node).run created = .error (node.badParam "extended_bounds" fault) := by
  obtain ⟨bucketing, named⟩ := stray.bucketing
  cases checked.named.symm.trans named
  obtain ⟨rest, run⟩ := build_run_bucketing limits (.all #[]) created named
  obtain ⟨order, ordered⟩ := checked.order_read
  obtain ⟨size, sized⟩ := checked.size
  obtain ⟨field, required⟩ := checked.field (by simp [Method.kind])
  obtain ⟨scheme, shaped⟩ := checked.scheme limits field
  have grouped : bucketing.group node (.all #[]) limits =
      .error (node.badParam "extended_bounds" fault) := by
    have ungrouped : scheme.group ([] : List (Fin 0 × Json)) =
        .error (node.badParam "extended_bounds" fault) := by
      have gaps := gaps_of_stray stray named shaped []
      simp [Scheme.group, Scheme.formed, gaps, bind, Except.bind, pure, Except.pure]
    rw [Bucketing.group_eq, required]
    show (bucketing.schemeOf node limits field >>= _) = _
    rw [shaped]
    exact ungrouped
  rw [run, selectBuckets, ordered, sized]
  simp [bind, Except.bind, grouped]

end Stray

/-- After a forest is accepted, a node of it, and all of them together, fail only for the rows, for the
limit on buckets, or for a stray bound. A node with a stray bound is never built, and where there are no
rows it is that bound for which building fails. -/
theorem accepted_fails_for_data {nodes : List Node} (valid : Forest.validate nodes = .ok ())
    (limits : Limits) (rows : List Row) (created : Nat) :
    (∀ e, (buildAll limits (.all rows.toArray) [] nodes).run created = .error e →
        Forest.Remaining nodes e) ∧
      ∀ node ∈ nodes,
        (¬ node.isPipeline → ∀ e, (build limits (.all rows.toArray) node).run created = .error e →
          Forest.Remaining [node] e) ∧
        ∀ fault, node.StrayBound fault →
          (∀ made, (build limits (.all rows.toArray) node).run created ≠ .ok made) ∧
          (build limits (.all #[]) node).run created =
            .error (node.badParam "extended_bounds" fault) := by
  refine ⟨fun e failed => ?_, fun node member => ⟨fun plain e failed => ?_, fun fault stray => ?_⟩⟩
  · exact (buildAll_raises limits nodes _ [] created e failed).remaining valid (List.Subset.refl nodes)
  · exact (build_raises limits node _ plain created e failed).remaining valid
      (List.cons_subset.mpr ⟨member, List.nil_subset nodes⟩)
  · obtain ⟨method, checked⟩ := Forest.checked_of_validate valid node member
    exact ⟨build_ne_ok_of_stray stray, build_no_rows_of_stray checked stray⟩

/-! ## Months up to the end of time -/

def byMonth : Node :=
  ⟨"months", "date_histogram", .bucketing, some "at",
    [("calendar_interval", .string "month"),
     ("extended_bounds", .object [("min", .ofInt 0), ("max", .ofInt Word64.greatest)])], []⟩

theorem accepted_fails_for_data_byMonth :
    Forest.validate [byMonth] = .ok () ∧
      (build {} (.all #[]) byMonth).run 0 =
        .error (byMonth.badParam "extended_bounds" (.boundOutOfRange "max")) := by
  have valid : Forest.validate [byMonth] = .ok () := by cbv
  have stray : byMonth.StrayBound (.boundOutOfRange "max") :=
    .last rfl rfl rfl rfl (by cbv) (by cbv)
  have fails := (accepted_fails_for_data valid {} [] 0).2 byMonth (List.mem_singleton_self _)
  exact ⟨valid, (fails.2 _ stray).2⟩

end Rollup
