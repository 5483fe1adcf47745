import Rollup.Bucketing.Basic
import Rollup.Proofs.Bucketing.Scheme

/-! # The three schemes

Each bucketing method groups by a scheme, which its parameters decide.
-/

namespace Rollup

namespace Terms

def keyFor (node : Node) (field : String) (value : Json) : Except Error Key :=
  match Key.ofJson? value with
  | some key => .ok key
  | none => .error (node.invalidValue field value)

/-- Values have no point, and nothing is filled. -/
def scheme (node : Node) (field : String) : Scheme where
  minCount := 0
  place value := do return (← keyFor node field value, none)
  gaps _ := return []
  placed_inRange h := by
    obtain ⟨key, keyed, h⟩ := bind_eq_ok.mp h
    cases h
    unfold keyFor at keyed
    split at keyed
    · cases keyed
      exact Key.inRange_of_ofJson? ‹_›
    · cases keyed
  gaps_inRange h := by cases h; simp
  gaps_eq_nil enough := absurd rfl enough

theorem group_eq (node : Node) (rows : RowSet) :
    group node rows = (do
      let field ← node.requireField
      let values ← rows.column node.name field
      (scheme node field).group values) := by
  unfold group
  congr 1; funext field
  congr 1; funext values
  have keyed : ∀ value : Fin rows.rows.size × Json,
      (match Key.ofJson? value.2 with
        | some key => .ok (key, value.1)
        | none => .error (node.invalidValue field value.2) : Except Error (Key × _)) =
      (do return (← keyFor node field value.2, value.1)) := fun value => by
    unfold keyFor
    cases Key.ofJson? value.2 <;> rfl
  have places : (values.mapM fun value => (scheme node field).place value.2) =
      List.map (fun key => (key, none)) <$> values.mapM fun value => keyFor node field value.2 :=
    mapM_then (fun value : _ × Json => keyFor node field value.2) _ values
  trans (values.mapM fun value => do return (← keyFor node field value.2, value.1)) >>=
    fun pairs => return .atLeast 0 (.ofPairs pairs)
  · exact congrArg (List.mapM · values >>= _) (funext keyed)
  rw [mapM_beside (keyFor node field), Scheme.group, Scheme.formed, places]
  cases values.mapM fun value => keyFor node field value.2 with
  | error e => rfl
  | ok keys =>
      simp [Functor.map, Except.map, bind, Except.bind, scheme, pure, Except.pure, Groups.fill,
        Function.comp_def]

end Terms

/-! ## Keys on a line -/

/-- A point, maybe, and the key that it has; what has no point is missing. -/
def onLine (keyAt : Int → Key) (point : Option Int) : Key × Option Int :=
  (point.elim .missing keyAt, point)

section Line

variable {ι : Type} (keyAt : Int → Key) {points : List (Option Int)} {ids : List ι}

theorem points_onLine : (points.map (onLine keyAt)).filterMap (·.2) = points.filterMap id :=
  List.filterMap_map

theorem keys_onLine : ((points.map (onLine keyAt)).map (·.1)).zip ids =
    (points.zip ids).map fun (point, id) => (point.elim .missing keyAt, id) := by
  rw [List.map_map, List.zip_map_left]
  rfl

theorem points_zip (h : points.length = ids.length) :
    (points.zip ids).filterMap (·.1) = points.filterMap id := by
  conv_rhs => rw [← List.map_fst_zip h.le, List.filterMap_map]
  rfl

/-- Grouping by a scheme that places values on a line: the points come first, then the gaps between
them. -/
theorem group_onLine {scheme : Scheme} {pointOf : Json → Except Error (Option Int)}
    (place : ∀ value, scheme.place value = do return onLine keyAt (← pointOf value))
    (values : List (ι × Json)) :
    scheme.group values = (do
      let placed ← values.mapM fun (id, value) => do return (← pointOf value, id)
      let gaps ← scheme.gaps (placed.filterMap (·.1))
      let groups := Groups.ofPairs (placed.map fun (point, id) => (point.elim .missing keyAt, id))
      return .atLeast scheme.minCount (groups.fill gaps)) := by
  have places : (values.mapM fun value => scheme.place value.2) =
      List.map (onLine keyAt) <$> values.mapM fun value => pointOf value.2 := by
    simp only [place]
    exact mapM_then (fun value : ι × Json => pointOf value.2) _ values
  rw [mapM_beside pointOf, Scheme.group, Scheme.formed, places]
  cases computed : values.mapM fun value => pointOf value.2 with
  | error e => rfl
  | ok points =>
      have length : points.length = (values.map (·.1)).length := by
        rw [List.length_map, length_of_mapM computed]
      simp only [Functor.map, Except.map, bind, Except.bind]
      rw [points_zip length, points_onLine, keys_onLine]
      cases scheme.gaps (points.filterMap id) <;> rfl

theorem inRange_onLine (h : ∀ point, (keyAt point).InRange) (point : Option Int) :
    (onLine keyAt point).1.InRange := by
  cases point with
  | none => trivial
  | some point => exact h point

end Line

namespace Histogram

/-- The span that is filled. -/
def filledSpan (node : Node) (params : Params) (points : List Int) :
    Except Error (Option (Int × Int)) :=
  match params.bounds with
  | none => return spanOf points
  | some (low, high) => do
      let outOfRange := node.badParam "extended_bounds" .outOfRange
      let some low := params.index? low | throw outOfRange
      let some high := params.index? high | throw outOfRange
      return some (widen (spanOf points) low high)

theorem keyAt_inRange (params : Params) (point : Int) : (params.keyAt point).InRange := trivial

def scheme (node : Node) (limits : Limits) (params : Params) (field : String) : Scheme where
  minCount := params.minCount
  place value := do return onLine params.keyAt (← indexOf node params field value)
  gaps points := do
    if params.minCount ≠ 0 then return []
    match ← filledSpan node params points with
    | none => return []
    | some (first, last) => return (← indices limits first last).map params.keyAt
  placed_inRange h := by
    obtain ⟨index, -, h⟩ := bind_eq_ok.mp h
    cases h
    exact inRange_onLine _ (keyAt_inRange params) _
  gaps_inRange h := by
    split at h
    · cases h
      simp
    · obtain ⟨span, -, h⟩ := bind_eq_ok.mp h
      cases span with
      | none =>
          cases h
          simp
      | some span =>
          obtain ⟨filled, -, h⟩ := bind_eq_ok.mp h
          cases h
          simpa using fun point _ => keyAt_inRange params point
  gaps_eq_nil enough h := by
    rw [if_pos enough] at h
    cases h
    rfl

theorem group_eq (node : Node) (rows : RowSet) (limits : Limits) :
    group node rows limits = (do
      let field ← node.requireField
      let params ← Params.ofNode node
      let values ← rows.column node.name field
      (scheme node limits params field).group values) := by
  unfold group
  congr 1; funext field
  congr 1; funext params
  congr 1; funext values
  rw [group_onLine params.keyAt fun _ => rfl]
  congr 1; funext indexed
  simp only [bind, Except.bind, pure, Except.pure, scheme, filledSpan]
  generalize Groups.ofPairs _ = groups, indexed.filterMap (·.1) = points
  by_cases most : params.minCount = 0
  · simp only [most, ne_eq, not_true, if_false]
    cases params.bounds with
    | none =>
        cases spanOf points with
        | none => rfl
        | some span =>
            simp only
            cases indices limits span.1 span.2 <;> rfl
    | some bounds =>
        simp only
        cases params.index? bounds.1 with
        | none => rfl
        | some low =>
            cases params.index? bounds.2 with
            | none => rfl
            | some high =>
                simp only
                cases indices limits (widen (spanOf points) low high).1
                  (widen (spanOf points) low high).2 <;> rfl
  · simp only [most, ne_eq, not_false_eq_true, if_true]
    rfl

end Histogram

namespace DateHistogram

open Calendar (Instant Interval)

theorem date_inRange (start : Instant) : (Key.date start).InRange := trivial

/-- The span that is filled. -/
def filledSpan (node : Node) (interval : Interval) (points : List Int) :
    Except Error (Option (Int × Int)) := do
  match ← boundsOf node with
  | none => return spanOf points
  | some (low, high) => do
      let some low := interval.floor low
        | throw (node.badParam "extended_bounds" (.boundOutOfRange "min"))
      let some high := interval.floor high
        | throw (node.badParam "extended_bounds" (.boundOutOfRange "max"))
      return some (widen (spanOf points) low high)

def scheme (node : Node) (limits : Limits) (interval : Interval) (minCount : Nat) (field : String) :
    Scheme where
  minCount := minCount
  place value := do return onLine .date (← startOf node interval field value)
  gaps points := do
    if minCount ≠ 0 then return []
    match ← filledSpan node interval points with
    | none => return []
    | some (first, last) => do
        let some filled := starts interval last limits.buckets (some first)
          | throw (.tooManyBuckets limits.buckets)
        return filled.map .date
  placed_inRange h := by
    obtain ⟨start, -, h⟩ := bind_eq_ok.mp h
    cases h
    exact inRange_onLine _ date_inRange _
  gaps_inRange h := by
    split at h
    · cases h
      simp
    · obtain ⟨span, -, h⟩ := bind_eq_ok.mp h
      cases span with
      | none =>
          cases h
          simp
      | some span =>
          simp only at h
          split at h
          · cases h
            simpa using fun start _ => date_inRange start
          · cases h
  gaps_eq_nil enough h := by
    rw [if_pos enough] at h
    cases h
    rfl

theorem group_eq (node : Node) (rows : RowSet) (limits : Limits) :
    group node rows limits = (do
      let field ← node.requireField
      let interval ← intervalOf node
      let minCount ← node.minCount
      let values ← rows.column node.name field
      (scheme node limits interval minCount field).group values) := by
  unfold group
  congr 1; funext field
  congr 1; funext interval
  congr 1; funext minCount
  congr 1; funext values
  rw [group_onLine .date fun _ => rfl]
  congr 1; funext started
  simp only [bind, Except.bind, pure, Except.pure, scheme, filledSpan]
  generalize Groups.ofPairs _ = groups, started.filterMap (·.1) = points
  by_cases most : minCount = 0
  · simp only [most, ne_eq, not_true, if_false]
    cases boundsOf node with
    | error e => rfl
    | ok bounds =>
    cases bounds with
    | none =>
        cases spanOf points with
        | none => rfl
        | some span =>
            simp only
            cases starts interval span.2 limits.buckets (some span.1) <;> rfl
    | some bounds =>
        simp only
        cases interval.floor bounds.1 with
        | none => rfl
        | some low =>
            cases interval.floor bounds.2 with
            | none => rfl
            | some high =>
                simp only
                cases starts interval (widen (spanOf points) low high).2 limits.buckets
                  (some (widen (spanOf points) low high).1) <;> rfl
  · simp only [most, ne_eq, not_false_eq_true, if_true]
    rfl

end DateHistogram

namespace Bucketing

/-- The scheme that a node asks for. -/
def schemeOf (method : Bucketing) (node : Node) (limits : Limits) (field : String) :
    Except Error Scheme :=
  match method with
  | terms => return Terms.scheme node field
  | histogram => do
      let params ← Histogram.Params.ofNode node
      return Histogram.scheme node limits params field
  | dateHistogram => do
      let interval ← DateHistogram.intervalOf node
      let minCount ← node.minCount
      return DateHistogram.scheme node limits interval minCount field

theorem group_eq (method : Bucketing) (node : Node) (rows : RowSet) (limits : Limits) :
    method.group node rows limits = (do
      let field ← node.requireField
      let scheme ← method.schemeOf node limits field
      let values ← rows.column node.name field
      scheme.group values) := by
  cases method with
  | terms => simp only [group, Terms.group_eq, schemeOf, pure_bind]
  | histogram => simp only [group, Histogram.group_eq, schemeOf, bind_assoc, pure_bind]
  | dateHistogram => simp only [group, DateHistogram.group_eq, schemeOf, bind_assoc, pure_bind]

/-- The key under which a node counts a value: that of the value itself, or of the bucket on the
line that holds it. -/
def keyOf? (method : Bucketing) (node : Node) (value : Json) : Option Key :=
  match method with
  | terms => Key.ofJson? value
  | histogram => if value.isNull then some .missing else do
      let params ← (Histogram.Params.ofNode node).toOption
      let index ← value.float?.bind params.index?
      return params.keyAt index
  | dateHistogram => if value.isNull then some .missing else do
      let interval ← (DateHistogram.intervalOf node).toOption
      let start ← (Calendar.Instant.ofJson? value).bind interval.floor
      return .date start

theorem key?_eq {method : Bucketing} {node : Node} {limits : Limits} {field : String}
    {scheme : Scheme} (h : method.schemeOf node limits field = .ok scheme) (value : Json) :
    scheme.key? value = method.keyOf? node value := by
  cases method with
  | terms =>
      cases h
      simp only [Scheme.key?, Terms.scheme, Terms.keyFor, keyOf?]
      cases Key.ofJson? value <;> rfl
  | histogram =>
      obtain ⟨params, made, h⟩ := bind_eq_ok.mp h
      cases h
      simp only [Scheme.key?, Histogram.scheme, Histogram.indexOf, keyOf?, made]
      cases value with
      | null => rfl
      | number n =>
          cases found : params.index? n.toFloat <;>
            simp [found, Json.isNull, Json.float?, Json.number?, onLine, Except.toOption, bind,
              Except.bind, pure, Except.pure]
      | _ => rfl
  | dateHistogram =>
      obtain ⟨interval, made, h⟩ := bind_eq_ok.mp h
      obtain ⟨minCount, -, h⟩ := bind_eq_ok.mp h
      cases h
      simp only [Scheme.key?, DateHistogram.scheme, DateHistogram.startOf, keyOf?, made]
      cases value.isNull with
      | true => rfl
      | false =>
          show _ = ((Calendar.Instant.ofJson? value).bind interval.floor).bind (some ∘ Key.date)
          cases (Calendar.Instant.ofJson? value).bind interval.floor <;> rfl

end Bucketing

/-- The key under which a bucketing node counts a row; a column that the row lacks counts as null. -/
def Node.keyOf? (node : Node) (row : Row) : Option Key :=
  match Method.ofName? node.typeName, node.field with
  | some (.bucketing method), some field =>
      method.keyOf? node ((row.lookup field).getD .null)
  | _, _ => none

end Rollup
