import Rollup.Proofs.Bucketing.Span
import Rollup.Proofs.Bucketing.Starts
import Rollup.Proofs.Calendar.Walk

/-! # Dates in a chain

Where groups of times may be empty, their keys are a chain: each is the next start after the one before,
from the least start of a row or of an end that a node asks for to the greatest. A chain that is longer
than the limit is refused.
-/

namespace Rollup

/-- The ends that a node asks for are in order. -/
theorem Node.ordered_of_extendedBounds {α : Type} {node : Node} {read : Json → Option α}
    {exceeds : α → α → Bool} {low high : α}
    (h : node.extendedBounds read exceeds = .ok (some (low, high))) : exceeds low high = false := by
  unfold Node.extendedBounds at h
  split at h
  · cases h
  · obtain ⟨a, -, h⟩ := bind_eq_ok.mp h
    obtain ⟨b, -, h⟩ := bind_eq_ok.mp h
    obtain ⟨ordered, same⟩ := refuse_eq_ok.mp h
    cases same
    exact Bool.eq_false_of_not_eq_true ordered
  · cases h

/-- With both ends in order, the least point is among all points, and so is the greatest. -/
theorem Spans.merge {points : Set Int} {low high : Int} {span : Int × Int}
    (h : Spans (insert low points) (insert high points) (some span)) (le : low ≤ high) :
    Spans (insert low (insert high points)) (insert low (insert high points)) (some span) := by
  obtain ⟨⟨first, least⟩, last, greatest⟩ := h
  rw [mem_lowerBounds, Set.forall_mem_insert] at least
  rw [mem_upperBounds, Set.forall_mem_insert] at greatest
  refine ⟨⟨?_, ?_⟩, ?_, ?_⟩
  · exact Set.insert_subset_insert (Set.subset_insert _ _) first
  · rw [mem_lowerBounds, Set.forall_mem_insert, Set.forall_mem_insert]
    exact ⟨least.1, least.1.trans le, least.2⟩
  · exact Set.mem_insert_of_mem _ last
  · rw [mem_upperBounds, Set.forall_mem_insert, Set.forall_mem_insert]
    exact ⟨le.trans greatest.1, greatest.1, greatest.2⟩

namespace DateHistogram

open Calendar (Instant Interval)

section Points

variable {ι : Type} (interval : Interval) (bounds : Option (Instant × Instant))
  (values : List (ι × Json))

/-- Start of the interval that holds a value. -/
def startOf? (value : Json) : Option Instant := (Instant.ofJson? value).bind interval.floor

/-- Key of a value. -/
def keyOf (value : Json) : Key := (startOf? interval value).elim .missing .date

/-- The starts of rows, and those of both ends to fill between. -/
def startsOf : Set Instant :=
  {start | start ∈ pointsOf (startOf? interval) values ∨
    ∃ ends ∈ bounds, interval.floor ends.1 = some start ∨ interval.floor ends.2 = some start}

/-- There are starts to fill between, and more than the limit from the first to the last. -/
def Overfull (limits : Limits) : Prop :=
  ∃ first last, IsLeast (startsOf interval bounds values) first ∧
    IsGreatest (startsOf interval bounds values) last ∧
    limits.buckets < (interval.startsBetween first last).card

/-- Dates that are a chain from the first start to the last. -/
def Joined (dates : List Instant) : Prop :=
  startsOf interval bounds values = ∅ ∧ dates = [] ∨
    ∃ first last, IsLeast (startsOf interval bounds values) first ∧
      IsGreatest (startsOf interval bounds values) last ∧ interval.Chain first last dates

end Points

section Filling

variable {ι : Type} {node : Node} {limits : Limits} {interval : Interval} {least : Nat}
  {bounds : Option (Instant × Instant)} {values : List (ι × Json)}

theorem placed (node : Node) (limits : Limits) (least : Nat) (field : String)
    (started : ∀ value ∈ values, value.2.isNull = false →
      (startOf? interval value.2).isSome) :
    ∀ value ∈ values, (scheme node limits interval least field).place value.2 =
      .ok (onLine .date (startOf? interval value.2)) := by
  rintro ⟨id, value⟩ member
  cases null : value.isNull with
  | true =>
      cases value <;> cases null
      rfl
  | false =>
      obtain ⟨start, found⟩ := Option.isSome_iff_exists.mp (started _ member null)
      have known : (Instant.ofJson? value).bind interval.floor = some start := found
      simp only [scheme, startOf, null, known, found]
      rfl

theorem spans_filledSpan (values : List (ι × Json)) (positive : interval.Positive) (given : boundsOf node = .ok bounds)
    (bounded : ∀ ends ∈ bounds, (interval.floor ends.1).isSome ∧ (interval.floor ends.2).isSome) :
    ∃ span, filledSpan node interval (values.filterMap fun value => startOf? interval value.2) =
        .ok span ∧
      Spans (startsOf interval bounds values) (startsOf interval bounds values) span := by
  have rows := spans_pointsOf (startOf? interval) values
  unfold filledSpan startsOf
  rw [given]
  cases bounds with
  | none => exact ⟨_, rfl, by simpa using rows⟩
  | some ends =>
      obtain ⟨first, last⟩ := bounded ends rfl
      obtain ⟨low, hlow⟩ := Option.isSome_iff_exists.mp first
      obtain ⟨high, hhigh⟩ := Option.isSome_iff_exists.mp last
      have ordered : ends.1 ≤ ends.2 := by
        simpa using Node.ordered_of_extendedBounds given
      have wider := (rows.widen low high).merge (Interval.floor_mono positive hlow hhigh ordered)
      refine ⟨some (widen _ low high), by simp only [hlow, hhigh, bind, Except.bind]; rfl, ?_⟩
      have same : insert low (insert high (pointsOf (startOf? interval) values)) =
          startsOf interval (some ends) values := by
        ext start
        simp [startsOf, hlow, hhigh, or_assoc, or_comm, eq_comm]
      rwa [same] at wider

/-- What rounding down gives is a start. -/
theorem floor_of_mem (positive : interval.Positive) {start : Instant}
    (member : start ∈ startsOf interval bounds values) : interval.floor start = some start := by
  rcases member with ⟨value, -, found⟩ | ⟨ends, -, low | high⟩
  · obtain ⟨instant, -, floor⟩ := Option.bind_eq_some_iff.mp found
    exact Interval.floor_floor positive floor
  · exact Interval.floor_floor positive low
  · exact Interval.floor_floor positive high

/-- A chain joins the ends of a span, and the starts of rows are among its dates. -/
theorem chain_of_spans (positive : interval.Positive) {first last : Instant}
    (least : IsLeast (startsOf interval bounds values) first)
    (greatest : IsGreatest (startsOf interval bounds values) last) :
    ∃ dates, interval.Chain first last dates ∧
      ∀ start ∈ startsOf interval bounds values, start ∈ dates := by
  obtain ⟨dates, chain⟩ := Interval.exists_chain positive (floor_of_mem positive least.1)
    (floor_of_mem positive greatest.1) (least.2 greatest.1)
  refine ⟨dates, chain, fun start member => ?_⟩
  rw [← List.mem_toFinset, chain.all, Interval.startsBetween, Finset.mem_filter, Finset.mem_Icc]
  exact ⟨⟨least.2 member, greatest.2 member⟩, floor_of_mem positive member⟩

theorem gaps_of_chain (field : String) (fills : least = 0) {points : List Int} {ends : Int × Int} {dates : List Instant}
    (h : filledSpan node interval points = .ok (some ends))
    (chain : interval.Chain ends.1 ends.2 dates) (limits : Limits) :
    (scheme node limits interval least field).gaps points =
      if dates.length ≤ limits.buckets then .ok (dates.map .date)
      else .error (.tooManyBuckets limits.buckets) := by
  have walked := chain.walked limits.buckets
  unfold scheme
  simp only [fills, ne_eq, not_true, if_false, h]
  simp only [bind, Except.bind, walked]
  by_cases few : dates.length ≤ limits.buckets <;> simp only [few, if_true, if_false] <;> rfl

theorem gaps_of_none (field : String) (fills : least = 0) {points : List Int}
    (h : filledSpan node interval points = .ok none) (limits : Limits) :
    (scheme node limits interval least field).gaps points = .ok [] := by
  unfold scheme
  simp only [fills, ne_eq, not_true, if_false, h]
  rfl

end Filling

section Group

variable {ι : Type} (node : Node) (limits : Limits) {interval : Interval} {least : Nat}
  (field : String) {bounds : Option (Instant × Instant)} {values : List (ι × Json)}
  (positive : interval.Positive) (fills : least = 0) (given : boundsOf node = .ok bounds)
  (started : ∀ value ∈ values, value.2.isNull = false → (startOf? interval value.2).isSome)
  (bounded : ∀ ends ∈ bounds, (interval.floor ends.1).isSome ∧ (interval.floor ends.2).isSome)

include positive fills given started bounded

/-- A chain that is too long is refused. -/
theorem group_eq_error (many : Overfull interval bounds values limits) :
    (scheme node limits interval least field).group values =
      .error (.tooManyBuckets limits.buckets) := by
  obtain ⟨span, filled, spans⟩ := spans_filledSpan values positive given bounded
  obtain ⟨ends, rfl, many⟩ := spans.exists_iff.mp many
  obtain ⟨dates, chain, -⟩ := chain_of_spans positive spans.1 spans.2
  have gaps := gaps_of_chain field fills filled chain limits
  rw [if_neg (by rwa [chain.length, not_le])] at gaps
  exact Scheme.group_eq_error (placed node limits least field started) gaps

omit started in
/-- The gaps of any other chain are filled with its dates, which the starts of rows are among. -/
theorem exists_gaps (few : ¬ Overfull interval bounds values limits) :
    ∃ dates, (scheme node limits interval least field).gaps
        (values.filterMap fun value => startOf? interval value.2) = .ok (dates.map .date) ∧
      Joined interval bounds values dates ∧ dates.Pairwise (· < ·) ∧
      ∀ start ∈ startsOf interval bounds values, start ∈ dates := by
  obtain ⟨span, filled, spans⟩ := spans_filledSpan values positive given bounded
  cases span with
  | none =>
      refine ⟨[], gaps_of_none field fills filled limits, .inl ⟨spans.1, rfl⟩, .nil, ?_⟩
      rw [spans.1]
      exact nofun
  | some ends =>
      obtain ⟨dates, chain, all⟩ := chain_of_spans positive spans.1 spans.2
      have gaps := gaps_of_chain field fills filled chain limits
      have short : dates.length ≤ limits.buckets := by
        by_contra long
        rw [chain.length, not_le] at long
        exact few ⟨_, _, spans.1, spans.2, long⟩
      rw [if_pos short] at gaps
      exact ⟨dates, gaps, .inr ⟨_, _, spans.1, spans.2, chain⟩, chain.ascending, all⟩

/-- Any other chain is filled: its dates are all keys but the missing one, in the same order. -/
theorem exists_group (few : ¬ Overfull interval bounds values limits) :
    ∃ grouping dates, (scheme node limits interval least field).group values = .ok grouping ∧
      grouping.Sorts (keyOf interval) values ∧
      (∀ value ∈ values, keyOf interval value.2 ∈ grouping.keys) ∧
      Joined interval bounds values dates ∧
      grouping.keys.filter (fun key => !key.isMissing) = dates.map .date := by
  obtain ⟨dates, gaps, joined, ascending, all⟩ :=
    exists_gaps node limits field positive fills given bounded few
  have place := placed node limits least field started
  have keyed := Scheme.keyed_of_placed place
  obtain ⟨grouping, made, members⟩ := Scheme.exists_group place gaps
  have sorts : grouping.Sorts (keyOf interval) values := Scheme.sorts keyed made
  refine ⟨grouping, dates, made, sorts, Scheme.complete keyed made fills, joined,
    Key.eq_of_ascending ?_ ?_ fun key => ?_⟩
  · exact sorts.ascending.filter _
  · exact List.pairwise_map.mpr (ascending.imp Key.date_before_date.mpr)
  · rw [List.mem_filter, members fills]
    constructor
    · rintro ⟨gap | ⟨value, member, rfl⟩, present⟩
      · exact gap
      · cases found : startOf? interval value.2 with
        | none =>
            rw [found] at present
            cases present
        | some start => exact List.mem_map_of_mem (all start (.inl ⟨value, member, found⟩))
    · intro gap
      obtain ⟨start, -, rfl⟩ := List.mem_map.mp gap
      exact ⟨.inl gap, rfl⟩

end Group

/-- A node that is accepted groups all rows whose values are null or rounded down to a start, and sorts
them by the start. If groups may be empty and the ends to fill between have starts, it refuses exactly
the chains that are longer than the limit, and else the dates of groups are the chain, in its order; a
group that fills a gap has no rows. If groups need rows, the ends do not matter, and the keys with enough
rows have a group. -/
theorem group_chains {node : Node} (accepted : validate node = .ok ()) :
    ∃ field interval least bounds, node.field = some field ∧ intervalOf node = .ok interval ∧
      node.minCount = .ok least ∧ boundsOf node = .ok bounds ∧
      ∀ (rows : RowSet) (limits : Limits) (values : List (Fin rows.rows.size × Json)),
        rows.column node.name field = .ok values →
        (∀ value ∈ values, value.2.isNull = false → (startOf? interval value.2).isSome) →
        (least = 0 →
          (∀ ends ∈ bounds, (interval.floor ends.1).isSome ∧ (interval.floor ends.2).isSome) →
          (group node rows limits = .error (.tooManyBuckets limits.buckets) ↔
            Overfull interval bounds values limits) ∧
          (¬ Overfull interval bounds values limits → ∃ grouping dates,
            group node rows limits = .ok grouping ∧ grouping.Sorts (keyOf interval) values ∧
            (∀ value ∈ values, keyOf interval value.2 ∈ grouping.keys) ∧
            Joined interval bounds values dates ∧
            grouping.keys.filter (fun key => !key.isMissing) = dates.map .date)) ∧
        (0 < least → ∃ grouping, group node rows limits = .ok grouping ∧
          grouping.Sorts (keyOf interval) values ∧
          ∀ key, key ∈ grouping.keys ↔ least ≤ (idsOf (keyOf interval) values key).length) := by
  obtain ⟨field, required, rest⟩ := bind_eq_ok.mp accepted
  obtain ⟨interval, is, rest⟩ := bind_eq_ok.mp (check_eq_ok.mp rest).2
  obtain ⟨least, counted, rest⟩ := bind_eq_ok.mp rest
  obtain ⟨bounds, given, -⟩ := bind_eq_ok.mp rest
  refine ⟨field, interval, least, bounds, Node.field_of_requireField required, is, counted, given, ?_⟩
  intro rows limits values column started
  have positive := positive_intervalOf is
  have grouped : group node rows limits =
      (scheme node limits interval least field).group values := by
    rw [group_eq, required, is, counted]
    simp only [bind, Except.bind, column]
  rw [grouped]
  constructor
  · intro fills bounded
    have refused := group_eq_error node limits field positive fills given started bounded
    have answered := exists_group node limits field positive fills given started bounded
    refine ⟨eq_error_iff refused fun few => ?_, answered⟩
    obtain ⟨grouping, dates, made, -⟩ := answered few
    exact ⟨grouping, made⟩
  · intro enough
    exact Scheme.exists_group_enough (placed node limits least field started) enough
      (if_pos enough.ne')

/-! ## Two months -/

def perMonth : Node :=
  ⟨"months", "date_histogram", .bucketing, some "day", [("calendar_interval", .string "month")], []⟩

def leapYear : RowSet :=
  .all #[[("day", .string "2024-01-31")], [("day", .string "2024-03-01")]]

def dayColumn : List (Fin leapYear.rows.size × Json) :=
  [(⟨0, by decide⟩, .string "2024-01-31"), (⟨1, by decide⟩, .string "2024-03-01")]

/-- February has a group between January and March, though no row. -/
theorem group_chains_february : validate perMonth = .ok () ∧
    ∃ grouping, group perMonth leapYear {} = .ok grouping ∧
      grouping.keys.filter (fun key => !key.isMissing) =
        [.date 1704067200000, .date 1706745600000, .date 1709251200000] := by
  have accepted : validate perMonth = .ok () := by decide +kernel
  have asked : intervalOf perMonth = .ok (.unit .month) := rfl
  have counted : perMonth.minCount = .ok 0 := rfl
  have unbounded : boundsOf perMonth = .ok none := rfl
  have column : leapYear.column "months" "day" = .ok dayColumn := rfl
  have january : startOf? (.unit .month) (.string "2024-01-31") = some 1704067200000 := by
    decide +kernel
  have march : startOf? (.unit .month) (.string "2024-03-01") = some 1709251200000 := by
    decide +kernel
  have both : startsOf (.unit .month) none dayColumn = {1704067200000, 1709251200000} := by
    simpa [startsOf, dayColumn] using pointsOf_pair january march
  have ends : IsLeast (startsOf (.unit .month) none dayColumn) 1704067200000 ∧
      IsGreatest (startsOf (.unit .month) none dayColumn) 1709251200000 := by
    rw [both]
    exact ends_of_pair (by decide)
  obtain ⟨field, interval, least, bounds, named, is, few, given, all⟩ := group_chains accepted
  obtain rfl := Option.some.inj named
  obtain rfl := Except.ok.inj (asked.symm.trans is)
  obtain rfl := Except.ok.inj (counted.symm.trans few)
  obtain rfl := Except.ok.inj (unbounded.symm.trans given)
  obtain ⟨filled, -⟩ := all leapYear {} dayColumn column (by simp [dayColumn, january, march])
  obtain ⟨refused, joined⟩ := filled rfl nofun
  have fits : ¬ Overfull (.unit .month) none dayColumn {} := by
    intro many
    obtain ⟨grouping, answered⟩ : ∃ grouping, group perMonth leapYear {} = .ok grouping := ⟨_, rfl⟩
    rw [refused.mpr many] at answered
    cases answered
  obtain ⟨grouping, dates, made, -, -, chained, keys⟩ := joined fits
  refine ⟨accepted, grouping, made, keys.trans ?_⟩
  rcases chained with ⟨empty, -⟩ | ⟨first, last, least, greatest, chain⟩
  · exact absurd ends.1.1 (by simp [empty])
  · rw [least.unique ends.1, greatest.unique ends.2] at chain
    have walked := chain.walked 3
    have three : starts (.unit .month) 1709251200000 3 (some 1704067200000) =
        some [1704067200000, 1706745600000, 1709251200000] := by decide
    rw [three, eq_comm, Option.ite_none_right_eq_some] at walked
    rw [Option.some.inj walked.2]
    rfl

end DateHistogram

end Rollup
