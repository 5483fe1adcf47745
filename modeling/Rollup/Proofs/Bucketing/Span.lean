import Rollup.Proofs.Bucketing.Sorted
import Rollup.Proofs.Rows

/-! # The span to fill

Gaps are filled from the least point of a row, or the lower end that a node asks for, to the greatest
point, or the upper end. A histogram has a bucket for each index of the span; a span with more indices
than the limit, or than 63 bits can count, is refused.
-/

namespace Rollup

/-- A span from the least of some points to the greatest of others; there is none without points. -/
def Spans (lows highs : Set Int) : Option (Int × Int) → Prop
  | none => lows = ∅ ∧ highs = ∅
  | some (first, last) => IsLeast lows first ∧ IsGreatest highs last

namespace Spans

variable {lows highs : Set Int} {span : Option (Int × Int)}

theorem widen (h : Spans lows highs span) (low high : Int) :
    Spans (insert low lows) (insert high highs) (some (widen span low high)) := by
  cases span with
  | none =>
      obtain ⟨rfl, rfl⟩ := h
      simp [Spans, Rollup.widen]
  | some span =>
      simp only [Spans, Rollup.widen]
      rw [min_comm, max_comm]
      exact ⟨h.1.insert low, h.2.insert high⟩

theorem exists_iff (h : Spans lows highs span) {P : Int → Int → Prop} :
    (∃ first last, IsLeast lows first ∧ IsGreatest highs last ∧ P first last) ↔
      ∃ ends ∈ span, P ends.1 ends.2 := by
  cases span with
  | none =>
      obtain ⟨rfl, rfl⟩ := h
      simp [IsLeast]
  | some span =>
      constructor
      · rintro ⟨first, last, least, greatest, holds⟩
        rw [least.unique h.1, greatest.unique h.2] at holds
        exact ⟨span, rfl, holds⟩
      · rintro ⟨ends, same, holds⟩
        cases same
        exact ⟨_, _, h.1, h.2, holds⟩

end Spans

theorem spans_spanOf (points : List Int) :
    Spans {point | point ∈ points} {point | point ∈ points} (spanOf points) := by
  have all (seen : Set Int) (span : Option (Int × Int)) (h : Spans seen seen span) :
      Spans (seen ∪ {point | point ∈ points}) (seen ∪ {point | point ∈ points})
        (points.foldl (fun span point => some (widen span point point)) span) := by
    induction points generalizing seen span with
    | nil => simpa using h
    | cons point points ih =>
        have later := ih (insert point seen) _ (h.widen point point)
        have same : insert point seen ∪ {other | other ∈ points} =
            seen ∪ {other | other ∈ point :: points} := by
          ext other
          simp [or_assoc, or_left_comm]
        rwa [same] at later
  simpa [spanOf] using all ∅ none ⟨rfl, rfl⟩

/-- The points of rows. -/
def pointsOf {ι : Type} (pointOf : Json → Option Int) (values : List (ι × Json)) : Set Int :=
  {point | ∃ value ∈ values, pointOf value.2 = some point}

theorem spans_pointsOf {ι : Type} (pointOf : Json → Option Int) (values : List (ι × Json)) :
    Spans (pointsOf pointOf values) (pointsOf pointOf values)
      (spanOf (values.filterMap fun value => pointOf value.2)) := by
  have rows := spans_spanOf (values.filterMap fun value => pointOf value.2)
  simpa only [pointsOf, List.mem_filterMap] using rows

theorem pointsOf_pair {ι : Type} {pointOf : Json → Option Int} {i j : ι} {a b : Json} {low high : Int}
    (first : pointOf a = some low) (second : pointOf b = some high) :
    pointsOf pointOf [(i, a), (j, b)] = {low, high} := by
  ext point
  simp [pointsOf, first, second, eq_comm]

theorem ends_of_pair {low high : Int} (le : low ≤ high) :
    IsLeast {low, high} low ∧ IsGreatest {low, high} high := by
  constructor
  · simpa [min_eq_left le] using isLeast_pair (a := low) (b := high)
  · simpa [max_eq_right le] using isGreatest_pair (a := low) (b := high)

namespace Histogram

section Points

variable {ι : Type} (params : Params) (values : List (ι × Json))

/-- Index of the bucket that holds a value. -/
def indexOf? (value : Json) : Option Int := value.float?.bind params.index?

/-- Key of a value. -/
def keyOf (value : Json) : Key := (indexOf? params value).elim .missing params.keyAt

/-- The indices of rows, and that of the lower end to fill from. -/
def lows : Set Int :=
  {index | index ∈ pointsOf (indexOf? params) values ∨
    ∃ bounds ∈ params.bounds, params.index? bounds.1 = some index}

/-- The indices of rows, and that of the upper end to fill to. -/
def highs : Set Int :=
  {index | index ∈ pointsOf (indexOf? params) values ∨
    ∃ bounds ∈ params.bounds, params.index? bounds.2 = some index}

/-- There are indices to fill, and more of them than the limit or than 63 bits can count. -/
def Overfull (limits : Limits) : Prop :=
  ∃ first last, IsLeast (lows params values) first ∧ IsGreatest (highs params values) last ∧
    ((limits.buckets : Int) < last - first + 1 ∨ Word64.greatest < last - first + 1)

end Points

section Indices

variable {limits : Limits}

theorem indices_eq_error {first last : Int}
    (many : (limits.buckets : Int) < last - first + 1 ∨ Word64.greatest < last - first + 1) :
    indices limits first last = .error (.tooManyBuckets limits.buckets) := by
  unfold indices
  apply if_neg
  unfold Word64.greatest at *
  omega

theorem indices_eq_ok {first last : Int}
    (few : ¬ ((limits.buckets : Int) < last - first + 1 ∨ Word64.greatest < last - first + 1)) :
    ∃ filled, indices limits first last = .ok filled ∧
      ∀ index, index ∈ filled ↔ first ≤ index ∧ index ≤ last := by
  refine ⟨_, if_pos ?_, fun index => ?_⟩
  · unfold Word64.greatest at *
    omega
  · simp only [List.mem_map, List.mem_range]
    constructor
    · rintro ⟨i, within, rfl⟩
      omega
    · rintro ⟨least, most⟩
      exact ⟨(index - first).toNat, by omega, by omega⟩

end Indices

section Filling

variable {ι : Type} (node : Node) (limits : Limits) {params : Params} (field : String)
  {values : List (ι × Json)}

theorem placed (indexed : ∀ value ∈ values, value.2.isNull = false → (indexOf? params value.2).isSome) :
    ∀ value ∈ values, (scheme node limits params field).place value.2 =
      .ok (onLine params.keyAt (indexOf? params value.2)) := by
  rintro ⟨id, value⟩ member
  have found := indexed _ member
  cases value with
  | null => rfl
  | number n =>
      obtain ⟨index, found⟩ := Option.isSome_iff_exists.mp (found rfl)
      have known : params.index? n.toFloat = some index := found
      simp only [scheme, indexOf, known, found]
      rfl
  | bool | string | array | object => simp [Json.isNull, indexOf?, Json.float?, Json.number?] at found

theorem spans_filledSpan (values : List (ι × Json))
    (bounded : ∀ bounds, params.bounds = some bounds →
      (params.index? bounds.1).isSome ∧ (params.index? bounds.2).isSome) :
    ∃ span, Spans (lows params values) (highs params values) span ∧ ∀ node : Node,
      filledSpan node params (values.filterMap fun value => indexOf? params value.2) = .ok span := by
  have rows := spans_pointsOf (indexOf? params) values
  unfold filledSpan lows highs
  cases given : params.bounds with
  | none => exact ⟨_, by simpa using rows, fun _ => rfl⟩
  | some bounds =>
      obtain ⟨first, last⟩ := bounded bounds given
      obtain ⟨low, hlow⟩ := Option.isSome_iff_exists.mp first
      obtain ⟨high, hhigh⟩ := Option.isSome_iff_exists.mp last
      have wider := rows.widen low high
      refine ⟨some (widen _ low high), ?_, fun _ => by simp only [hlow, hhigh]; rfl⟩
      simpa [hlow, hhigh, Set.insert_def, or_comm, eq_comm] using wider

theorem gaps_eq (fills : params.minCount = 0) {points : List Int} {span : Option (Int × Int)}
    (h : filledSpan node params points = .ok span) :
    (scheme node limits params field).gaps points = span.elim (.ok []) fun ends =>
      List.map params.keyAt <$> indices limits ends.1 ends.2 := by
  unfold scheme
  simp only [fills, ne_eq, not_true, if_false, h]
  cases span with
  | none => rfl
  | some span =>
      simp only [bind, Except.bind, Option.elim_some]
      cases indices limits span.1 span.2 <;> rfl

end Filling

section Group

variable {ι : Type} (node : Node) (limits : Limits) {params : Params} (field : String)
  {values : List (ι × Json)} (fills : params.minCount = 0)
  (indexed : ∀ value ∈ values, value.2.isNull = false → (indexOf? params value.2).isSome)
  (bounded : ∀ bounds, params.bounds = some bounds →
    (params.index? bounds.1).isSome ∧ (params.index? bounds.2).isSome)

include fills indexed bounded

/-- A span of too many indices is refused. -/
theorem group_eq_error (many : Overfull params values limits) :
    (scheme node limits params field).group values = .error (.tooManyBuckets limits.buckets) := by
  obtain ⟨span, spans, filled⟩ := spans_filledSpan values bounded
  have gaps := gaps_eq node limits field fills (filled node)
  obtain ⟨ends, rfl, many⟩ := spans.exists_iff.mp many
  rw [Option.elim_some, indices_eq_error many] at gaps
  exact Scheme.group_eq_error (placed node limits field indexed) gaps

omit fills indexed in
/-- The indices of rows lie in the span. -/
theorem exists_ends {index : Int} (point : index ∈ pointsOf (indexOf? params) values) :
    ∃ first last, IsLeast (lows params values) first ∧ IsGreatest (highs params values) last ∧
      first ≤ index ∧ index ≤ last := by
  obtain ⟨span, spans, -⟩ := spans_filledSpan values bounded
  cases span with
  | none =>
      have none : index ∉ lows params values := by simp [spans.1]
      exact absurd (.inl point) none
  | some ends => exact ⟨_, _, spans.1, spans.2, spans.1.2 (.inl point), spans.2.2 (.inl point)⟩

omit indexed in
/-- The gaps of any other span are filled with the keys of its indices. -/
theorem exists_gaps (few : ¬ Overfull params values limits) :
    ∃ keys, (scheme node limits params field).gaps
        (values.filterMap fun value => indexOf? params value.2) = .ok keys ∧
      ∀ key, key ∈ keys ↔ ∃ first last, IsLeast (lows params values) first ∧
        IsGreatest (highs params values) last ∧
          ∃ index, first ≤ index ∧ index ≤ last ∧ key = params.keyAt index := by
  obtain ⟨span, spans, filled⟩ := spans_filledSpan values bounded
  have gaps := gaps_eq node limits field fills (filled node)
  simp only [spans.exists_iff]
  cases span with
  | none => exact ⟨[], gaps, by simp⟩
  | some ends =>
      obtain ⟨filled, found, members⟩ := indices_eq_ok fun many =>
        few (spans.exists_iff.mpr ⟨ends, rfl, many⟩)
      rw [Option.elim_some, found] at gaps
      refine ⟨_, gaps, fun key => ?_⟩
      simp [members, eq_comm, and_assoc]

/-- Any other span is covered. The indices of rows lie in it, so their keys are among those of its
indices. -/
theorem exists_group (few : ¬ Overfull params values limits) :
    ∃ grouping, (scheme node limits params field).group values = .ok grouping ∧
      grouping.Sorts (keyOf params) values ∧
      (∀ value ∈ values, keyOf params value.2 ∈ grouping.keys) ∧
      ∀ key, key ≠ .missing → (key ∈ grouping.keys ↔
        ∃ first last, IsLeast (lows params values) first ∧ IsGreatest (highs params values) last ∧
          ∃ index, first ≤ index ∧ index ≤ last ∧ key = params.keyAt index) := by
  obtain ⟨keys, gaps, members⟩ := exists_gaps node limits field fills bounded few
  have place := placed node limits field indexed
  have keyed := Scheme.keyed_of_placed place
  obtain ⟨grouping, made, all⟩ := Scheme.exists_group place gaps
  refine ⟨grouping, made, Scheme.sorts keyed made, Scheme.complete keyed made fills, ?_⟩
  intro key present
  rw [all fills, members]
  refine or_iff_left_of_imp ?_
  rintro ⟨value, member, rfl⟩
  cases found : indexOf? params value.2 with
  | none =>
      rw [found] at present
      exact absurd rfl present
  | some index =>
      obtain ⟨first, last, least, greatest, above, below⟩ := exists_ends bounded
        ⟨value, member, found⟩
      exact ⟨first, last, least, greatest, index, above, below, rfl⟩

end Group

/-- A histogram node that is accepted groups all rows whose values are null or numbers with an index, and
sorts them by the key of the index. If groups may be empty and the ends of the span to fill have
indices, it refuses exactly the spans of too many indices, and else has a group for each index of the
span; a group that fills a gap has no rows. If groups need rows, the span does not matter, and the keys
with enough rows have a group. -/
theorem group_covers {node : Node} (accepted : validate node = .ok ()) :
    ∃ field params, node.field = some field ∧ Params.ofNode node = .ok params ∧
      ∀ (rows : RowSet) (limits : Limits) (values : List (Fin rows.rows.size × Json)),
        rows.column node.name field = .ok values →
        (∀ value ∈ values, value.2.isNull = false → (indexOf? params value.2).isSome) →
        (params.minCount = 0 →
          (∀ bounds, params.bounds = some bounds →
            (params.index? bounds.1).isSome ∧ (params.index? bounds.2).isSome) →
          (group node rows limits = .error (.tooManyBuckets limits.buckets) ↔
            Overfull params values limits) ∧
          (¬ Overfull params values limits → ∃ grouping, group node rows limits = .ok grouping ∧
            grouping.Sorts (keyOf params) values ∧
            (∀ value ∈ values, keyOf params value.2 ∈ grouping.keys) ∧
            ∀ key, key ≠ .missing → (key ∈ grouping.keys ↔
              ∃ first last, IsLeast (lows params values) first ∧
                IsGreatest (highs params values) last ∧
                ∃ index, first ≤ index ∧ index ≤ last ∧ key = params.keyAt index))) ∧
        (0 < params.minCount → ∃ grouping, group node rows limits = .ok grouping ∧
          grouping.Sorts (keyOf params) values ∧
          ∀ key, key ∈ grouping.keys ↔
            params.minCount ≤ (idsOf (keyOf params) values key).length) := by
  obtain ⟨field, required, rest⟩ := bind_eq_ok.mp accepted
  obtain ⟨params, read, -⟩ := bind_eq_ok.mp (check_eq_ok.mp rest).2
  refine ⟨field, params, Node.field_of_requireField required, read, ?_⟩
  intro rows limits values column indexed
  have grouped : group node rows limits = (scheme node limits params field).group values := by
    rw [group_eq, required, read]
    simp only [bind, Except.bind, column]
  rw [grouped]
  constructor
  · intro fills bounded
    have refused := group_eq_error node limits field fills indexed bounded
    have answered := exists_group node limits field fills indexed bounded
    exact ⟨eq_error_iff refused fun few => (answered few).imp fun _ all => all.1, answered⟩
  · intro enough
    exact Scheme.exists_group_enough (placed node limits field indexed) enough (if_pos enough.ne')

/-! ## Two prices -/

theorem ends_of_two {ι : Type} {params : Params} {i j : ι} {a b : Json} {low high : Int}
    (unbounded : params.bounds = none) (first : indexOf? params a = some low)
    (second : indexOf? params b = some high) (le : low ≤ high) :
    IsLeast (lows params [(i, a), (j, b)]) low ∧ IsGreatest (highs params [(i, a), (j, b)]) high := by
  have least : lows params [(i, a), (j, b)] = {low, high} := by
    simpa [lows, unbounded] using pointsOf_pair first second
  have greatest : highs params [(i, a), (j, b)] = {low, high} := by
    simpa [highs, unbounded] using pointsOf_pair first second
  rw [least, greatest]
  exact ends_of_pair le

def byTens : Node := ⟨"tens", "histogram", .bucketing, some "price", [("interval", .ofInt 10)], []⟩

def tens : Params := ⟨10.0, 0.0, 0, none⟩

def prices : RowSet := .all #[[("price", .ofInt 5)], [("price", .ofInt 25)]]

def priceColumn : List (Fin prices.rows.size × Json) :=
  [(⟨0, by decide⟩, .ofInt 5), (⟨1, by decide⟩, .ofInt 25)]

/-- The ten between two prices has a group, though no row. -/
theorem group_covers_prices : validate byTens = .ok () ∧
    ∃ grouping, group byTens prices {} = .ok grouping ∧ .float 10.0 ∈ grouping.keys := by
  have accepted : validate byTens = .ok () := by decide +kernel
  have read : Params.ofNode byTens = .ok tens := rfl
  have column : prices.column "tens" "price" = .ok priceColumn := rfl
  have low : indexOf? tens (.ofInt 5) = some 0 := by decide +kernel
  have high : indexOf? tens (.ofInt 25) = some 2 := by decide +kernel
  have ends : IsLeast (lows tens priceColumn) 0 ∧ IsGreatest (highs tens priceColumn) 2 :=
    ends_of_two rfl low high (by decide)
  have few : ¬ Overfull tens priceColumn {} := by
    rintro ⟨first, last, least, greatest, many⟩
    rw [least.unique ends.1, greatest.unique ends.2] at many
    exact absurd many (by decide)
  obtain ⟨field, params, named, is, all⟩ := group_covers accepted
  obtain rfl := Option.some.inj named
  obtain rfl := Except.ok.inj (read.symm.trans is)
  obtain ⟨filled, -⟩ := all prices {} priceColumn column (by simp [priceColumn, low, high])
  obtain ⟨grouping, grouped, -, -, covered⟩ := (filled rfl nofun).2 few
  have ten : Key.float 10.0 = tens.keyAt 1 := by decide +kernel
  exact ⟨accepted, grouping, grouped, (covered (.float 10.0) (by simp)).mpr
    ⟨0, 2, ends.1, ends.2, 1, by decide, by decide, ten⟩⟩

/-! ## A span beyond counting -/

def byOnes : Node := ⟨"ones", "histogram", .bucketing, some "price", [("interval", .ofInt 1)], []⟩

def ones : Params := ⟨1.0, 0.0, 0, none⟩

def extremes : RowSet :=
  .all #[[("price", .ofInt (-9000000000000000000))], [("price", .ofInt 9000000000000000000)]]

def extremeColumn : List (Fin extremes.rows.size × Json) :=
  [(⟨0, by decide⟩, .ofInt (-9000000000000000000)), (⟨1, by decide⟩, .ofInt 9000000000000000000)]

/-- All that 64 bits without a sign can count. -/
def mostBuckets : Limits := { buckets := 0xffffffffffffffff }

/-- A span may be refused though it has no more indices than the limit. -/
theorem refused_within_limit : validate byOnes = .ok () ∧ Params.ofNode byOnes = .ok ones ∧
    extremes.column "ones" "price" = .ok extremeColumn ∧
    (∀ value ∈ extremeColumn, (indexOf? ones value.2).isSome) ∧
    group byOnes extremes mostBuckets = .error (.tooManyBuckets mostBuckets.buckets) ∧
    ¬ ∃ first last, IsLeast (lows ones extremeColumn) first ∧
      IsGreatest (highs ones extremeColumn) last ∧ (mostBuckets.buckets : Int) < last - first + 1 := by
  have low : indexOf? ones (.ofInt (-9000000000000000000)) = some (-9000000000000000000) := by
    decide +kernel
  have high : indexOf? ones (.ofInt 9000000000000000000) = some 9000000000000000000 := by
    decide +kernel
  refine ⟨by decide +kernel, rfl, rfl, by simp [extremeColumn, low, high], rfl, ?_⟩
  rintro ⟨first, last, least, greatest, many⟩
  have ends : IsLeast (lows ones extremeColumn) _ ∧ IsGreatest (highs ones extremeColumn) _ :=
    ends_of_two rfl low high (by decide)
  rw [least.unique ends.1, greatest.unique ends.2] at many
  exact absurd many (by decide)

end Histogram

end Rollup
