import Rollup.Proofs.Bucketing.Rows
import Rollup.Proofs.Bucketing.Span
import Rollup.Proofs.Calendar.Interval

/-! # Keys of time

The key of a group of times is the start of an interval, whether a row put the group there or it fills
a gap.
-/

namespace Rollup

namespace DateHistogram

open Calendar (Instant Interval)

/-- The interval of a node is not empty. -/
theorem positive_intervalOf {node : Node} {interval : Interval}
    (h : intervalOf node = .ok interval) : interval.Positive := by
  obtain ⟨unit, -, h⟩ := bind_eq_ok.mp h
  obtain ⟨width, -, h⟩ := bind_eq_ok.mp h
  obtain ⟨either, -, h⟩ := bind_eq_ok.mp h
  -- One of the three parameters is given, and its text is read.
  simp only at h
  split at h
  · split at h
    · cases h
      exact Interval.positive_ofUnitText? ‹_›
    · cases h
  · split at h
    · cases h
      exact Interval.positive_ofWidthText? ‹_›
    · cases h
  · split at h
    · cases h
      rcases (Option.orElse_eq_some _ _ _).mp ‹_› with unit | ⟨-, width⟩
      · exact Interval.positive_ofUnitText? unit
      · exact Interval.positive_ofWidthText? width
    · cases h
  · cases h
  · cases h

/-- Filling goes from one start to the next. -/
theorem startAt_of_starts {interval : Interval} {last : Instant} {limit : Nat} {start : Option Instant}
    {filled : List Instant} (h : starts interval last limit start = some filled)
    (first : ∀ s ∈ start, ∃ n, s = interval.startAt n) :
    ∀ s ∈ filled, ∃ n, s = interval.startAt n := by
  fun_induction starts interval last limit start generalizing filled with
  | case1 =>
      cases h
      simp
  | case2 => cases h
  | case3 =>
      cases h
      simp
  | case4 limit start within ih =>
      obtain ⟨rest, filled, rfl⟩ := Option.map_eq_some_iff.mp h
      obtain ⟨n, rfl⟩ := first start rfl
      refine List.forall_mem_cons.mpr ⟨⟨n, rfl⟩, ih filled ?_⟩
      exact fun next hnext => ⟨n + 1, Interval.next_startAt hnext⟩
  | case5 =>
      cases h
      simp

section Keys

variable {node : Node} {limits : Limits} {interval : Interval} {minCount : Nat} {field : String}
  (is : intervalOf node = .ok interval)

include is

/-- A value is placed at the start of an interval. -/
theorem startAt_of_place {value : Json} {key : Key} {point : Option Int}
    (h : (scheme node limits interval minCount field).place value = .ok (key, point)) :
    (key, point) = onLine .date point ∧ ∀ start ∈ point, ∃ n, start = interval.startAt n := by
  obtain ⟨start, started, h⟩ := bind_eq_ok.mp h
  cases h
  refine ⟨rfl, fun s hs => ?_⟩
  cases hs
  unfold startOf at started
  split at started
  · cases started
  · split at started
    · cases started
      obtain ⟨instant, -, floor⟩ := Option.bind_eq_some_iff.mp ‹_›
      obtain ⟨n, same, -⟩ := Interval.floor_between (positive_intervalOf is) floor
      exact ⟨n, same⟩
    · cases started

/-- The span that is filled begins with an interval. -/
theorem startAt_of_filledSpan {points : List Int} {span : Int × Int}
    (h : filledSpan node interval points = .ok (some span))
    (own : ∀ point ∈ points, ∃ n, point = interval.startAt n) : ∃ n, span.1 = interval.startAt n := by
  have rows := spans_spanOf points
  obtain ⟨bounds, -, h⟩ := bind_eq_ok.mp h
  cases bounds with
  | none =>
      rw [Except.ok.inj h] at rows
      exact own _ rows.1.1
  | some bounds =>
      simp only at h
      split at h
      · rename_i low floored
        split at h
        · rename_i high _
          have wider := rows.widen low high
          rw [Option.some.inj (Except.ok.inj h)] at wider
          rcases wider.1.1 with same | member
          · obtain ⟨n, begins, -⟩ := Interval.floor_between (positive_intervalOf is) floored
            exact ⟨n, same.trans begins⟩
          · exact own _ member
        · cases h
      · cases h

/-- Gaps are filled with starts of intervals. -/
theorem startAt_of_gaps {points : List Int} {gaps : List Key}
    (h : (scheme node limits interval minCount field).gaps points = .ok gaps)
    (own : ∀ point ∈ points, ∃ n, point = interval.startAt n) :
    ∀ key ∈ gaps, ∃ n, key = .date (interval.startAt n) := by
  unfold scheme at h
  split at h
  · cases h
    simp
  · obtain ⟨span, spanned, h⟩ := bind_eq_ok.mp h
    cases span with
    | none =>
        cases h
        simp
    | some span =>
        simp only at h
        split at h
        · cases h
          have first := startAt_of_filledSpan is spanned own
          have all := startAt_of_starts ‹_› fun start hstart => by
            obtain rfl := Option.some.inj hstart
            exact first
          intro key member
          obtain ⟨start, hstart, rfl⟩ := List.mem_map.mp member
          obtain ⟨n, rfl⟩ := all start hstart
          exact ⟨n, rfl⟩
        · cases h

end Keys

end DateHistogram

namespace Bucketing

variable {method : Bucketing} {node : Node} {limits : Limits} {rows : List Row}
  {grouping : Grouping Row}

/-- Rows that are put into groups have a key each. -/
theorem keyed_of_groupRows (is : Method.ofName? node.typeName = some (.bucketing method))
    (h : method.groupRows node limits rows = .ok grouping) :
    ∀ row ∈ rows, (node.keyOf? row).isSome := by
  intro row member
  obtain ⟨field, scheme, valueOf, -, h, keys⟩ := groupRows_eq_ok is h
  obtain ⟨groups, made, -⟩ := map_eq_ok.mp h
  rw [← keys row]
  exact (Scheme.formed_eq_ok made).1 _ (List.mem_map_of_mem (f := fun row => (row, valueOf row)) member)

/-- A group of times is that of the rows without one, or its key is the start of an interval. -/
theorem startAt_of_groupRows (is : Method.ofName? node.typeName = some (.bucketing .dateHistogram))
    (h : dateHistogram.groupRows node limits rows = .ok grouping) {group : Key × List Row}
    (member : group ∈ grouping.groups) : ∃ interval, DateHistogram.intervalOf node = .ok interval ∧
      (group.1 = .missing ∨ ∃ n, group.1 = .date (interval.startAt n)) := by
  obtain ⟨field, scheme, valueOf, asked, h, -⟩ := groupRows_eq_ok is h
  obtain ⟨interval, hinterval, asked⟩ := bind_eq_ok.mp asked
  obtain ⟨minCount, -, asked⟩ := bind_eq_ok.mp asked
  cases asked
  refine ⟨interval, hinterval, ?_⟩
  obtain ⟨groups, made, rfl⟩ := map_eq_ok.mp h
  have held := List.mem_map_of_mem (f := Prod.fst) (List.mem_of_mem_filter member)
  rcases Scheme.key_of_formed made held with
    ⟨value, -, point, placed⟩ | ⟨points, gaps, own, filled, gap⟩
  · obtain ⟨same, starts⟩ := DateHistogram.startAt_of_place hinterval placed
    obtain ⟨key, -⟩ := Prod.mk.inj same
    rw [key]
    cases point with
    | none => exact .inl rfl
    | some start =>
        obtain ⟨n, rfl⟩ := starts start rfl
        exact .inr ⟨n, rfl⟩
  · refine .inr (DateHistogram.startAt_of_gaps hinterval filled (fun point hpoint => ?_) _ gap)
    obtain ⟨value, -, key, placed⟩ := own point hpoint
    exact (DateHistogram.startAt_of_place hinterval placed).2 point rfl

end Bucketing

end Rollup
