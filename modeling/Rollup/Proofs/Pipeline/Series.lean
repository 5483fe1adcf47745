import Rollup.Proofs.Aggregation.Forms

/-! # Series that pipelines make

A parallel pipeline goes through a sequence once and remembers a little of what it has seen. What it
makes at each place is told here by all values up to that place: a difference to the last value
before, a sum of everything so far, or a mean of the last values before. A mean is made only where
memory can be set aside for the whole window.
-/

namespace Rollup

namespace GapPolicy

/-- The policy that a node asks for. A node that asks for none leaves gaps out. -/
inductive Asked (node : Node) : GapPolicy → Prop where
  | unsaid : node.param? "gap_policy" = none → Asked node skip
  | skip : node.param? "gap_policy" = some (.string "skip") → Asked node skip
  | insertZeros : node.param? "gap_policy" = some (.string "insert_zeros") → Asked node insertZeros

variable {node : Node} {policy : GapPolicy} {value filled : Option Float}

theorem ofNode_of_asked (asked : Asked node policy) : ofNode node = .ok policy := by
  unfold ofNode Node.stringParam
  cases asked with
  | unsaid is => rw [is]; rfl
  | skip is => rw [is]; rfl
  | insertZeros is => rw [is]; rfl

/-- No value, or one that is no number. -/
def IsGap (value : Option Float) : Prop := ∀ x, value = some x → x.isNaN

/-- What a gap counts as. -/
def filling : GapPolicy → Option Float
  | skip => none
  | insertZeros => some 0.0

theorem apply_of_gap (policy : GapPolicy) (gap : IsGap value) :
    policy.apply value = policy.filling := by
  have dropped : value.filter (fun x => !x.isNaN) = none := by
    cases value with
    | none => rfl
    | some x =>
        rw [Option.filter_some, gap x rfl]
        rfl
  cases policy <;> simp only [apply, filling, dropped, Option.getD_none]

theorem apply_of_not_gap (policy : GapPolicy) (number : ¬ IsGap value) :
    policy.apply value = value := by
  cases value with
  | none => exact absurd nofun number
  | some x =>
      have is : x.isNaN = false := by
        refine Bool.eq_false_of_not_eq_true fun is => number ?_
        rintro _ ⟨⟩
        exact is
      have stays : (some x).filter (fun x => !x.isNaN) = some x := by
        rw [Option.filter_some, is]
        rfl
      cases policy <;> simp only [apply, stays, Option.getD_some]

/-- What a value of a sequence counts as: gaps are filled, and everything else stays. -/
structure Fills (policy : GapPolicy) (value filled : Option Float) : Prop where
  gap : IsGap value → filled = policy.filling
  kept : ¬ IsGap value → filled = value

theorem Fills.eq_apply (fills : Fills policy value filled) : filled = policy.apply value := by
  by_cases is : IsGap value
  · rw [fills.gap is, apply_of_gap policy is]
  · rw [fills.kept is, apply_of_not_gap policy is]

theorem apply_eq_none_iff : policy.apply value = none ↔ policy = .skip ∧ IsGap value := by
  by_cases is : IsGap value
  · rw [apply_of_gap policy is]
    cases policy <;> simp [filling, is]
  · rw [apply_of_not_gap policy is]
    refine iff_of_false ?_ fun both => is both.2
    rintro rfl
    exact is nofun

end GapPolicy

namespace Pipeline

/-- The window that a node asks for; a node that asks for none has a window of five values. -/
inductive WindowAsked (node : Node) : Nat → Prop where
  | unsaid : node.param? "window" = none → WindowAsked node 5
  | said {value : Json} {window : Nat} : node.param? "window" = some value →
      value.nat? = some window → 0 < window → WindowAsked node window

theorem windowOf_of_asked {node : Node} {window : Nat} (asked : WindowAsked node window) :
    windowOf node = .ok window := by
  unfold windowOf Node.positiveParam Node.natParam
  cases asked with
  | unsaid is =>
      rw [is]
      rfl
  | said is whole positive =>
      rw [is]
      simp only [whole]
      cases window with
      | zero => cases positive
      | succ window => rfl

/-! ## Differences -/

section Differences

variable {values : List (Option Float)}

/-- The last value of a list, or else one from before the list. -/
def latest (previous : Option Float) (values : List (Option Float)) : Option Float :=
  values.foldl (fun last x => x.or last) previous

theorem getElem?_differences (previous : Option Float) (values : List (Option Float)) (i : Nat) :
    (differences previous values)[i]? =
      values[i]?.map fun x => x.bind fun x => (latest previous (values.take i)).map (x - ·) := by
  induction values generalizing previous i with
  | nil => rfl
  | cons x rest ih =>
      cases i with
      | zero => cases x <;> rfl
      | succ i => cases x <;> exact ih _ i

/-- A place of a list that holds a value. -/
def HasValue (values : List (Option Float)) (j : Nat) : Prop := ∃ y, values[j]? = some (some y)

/-- The last value before a place is the one that stands at the greatest place before it. -/
theorem latest_take (values : List (Option Float)) (i : Nat) :
    (latest none (values.take i) = none ∧ ∀ j < i, ¬ HasValue values j) ∨
      ∃ j y, IsGreatest {j | j < i ∧ HasValue values j} j ∧ values[j]? = some (some y) ∧
        latest none (values.take i) = some y := by
  induction i with
  | zero => exact .inl ⟨by rw [List.take_zero]; rfl, nofun⟩
  | succ i ih =>
      have step : latest none (values.take (i + 1)) =
          (values[i]?.join).or (latest none (values.take i)) := by
        rw [List.take_add_one, latest, List.foldl_append]
        cases values[i]? <;> rfl
      by_cases here : HasValue values i
      · obtain ⟨y, found⟩ := here
        refine .inr ⟨i, y, ⟨⟨i.lt_succ_self, y, found⟩, fun j before => ?_⟩, found, ?_⟩
        · exact Nat.le_of_lt_succ before.1
        · rw [step, found]
          rfl
      · have nothing : values[i]?.join = none := by
          rw [Option.join_eq_none_iff]
          cases found : values[i]? with
          | none => exact .inl rfl
          | some x =>
              cases x with
              | none => exact .inr rfl
              | some y => exact absurd ⟨y, found⟩ here
        have earlier {j : Nat} (before : j < i + 1) (has : HasValue values j) : j < i :=
          lt_of_le_of_ne (Nat.le_of_lt_succ before) fun same => here (same ▸ has)
        rw [step, nothing, Option.none_or]
        rcases ih with ⟨none, all⟩ | ⟨j, y, greatest, found, last⟩
        · exact .inl ⟨none, fun j before has => all j (earlier before has) has⟩
        · refine .inr ⟨j, y, ⟨⟨greatest.1.1.trans i.lt_succ_self, greatest.1.2⟩, ?_⟩, found, last⟩
          exact fun k before => greatest.2 ⟨earlier before.1 before.2, before.2⟩

/-- The difference between the value at a place and the last value before it. -/
inductive Difference (values : List (Option Float)) (i : Nat) : Option Float → Prop where
  | gap : values[i]? = some none → Difference values i none
  | first {x : Float} : values[i]? = some (some x) → (∀ j < i, ¬ HasValue values j) →
      Difference values i none
  | step {x y : Float} {j : Nat} : values[i]? = some (some x) →
      IsGreatest {j | j < i ∧ HasValue values j} j → values[j]? = some (some y) →
      Difference values i (some (x - y))

theorem difference_of_mem {i : Nat} {result : Option Float}
    (at_place : (differences none values)[i]? = some result) : Difference values i result := by
  rw [getElem?_differences] at at_place
  obtain ⟨x, here, rfl⟩ := Option.map_eq_some_iff.mp at_place
  cases x with
  | none => exact .gap here
  | some x =>
      rw [Option.bind_some]
      rcases latest_take values i with ⟨none, all⟩ | ⟨j, y, greatest, found, last⟩
      · rw [none]
        exact .first here all
      · rw [last]
        exact .step here greatest found

end Differences

/-! ## Running sums -/

/-- The sum of all values up to a place, from zero on. A gap counts as zero. -/
def RunningSum (values : List (Option Float)) (i : Nat) (result : Option Float) : Prop :=
  result = some (((values.take (i + 1)).map (·.getD 0.0)).foldl (· + ·) 0.0)

theorem getElem?_runningSums (total : Float) (values : List (Option Float)) (i : Nat) :
    (runningSums total values)[i]? =
      values[i]?.map fun _ =>
        some (((values.take (i + 1)).map (·.getD 0.0)).foldl (· + ·) total) := by
  induction values generalizing total i with
  | nil => rfl
  | cons x rest ih =>
      cases i with
      | zero => rfl
      | succ i => exact ih _ i

theorem runningSum_of_mem {values : List (Option Float)} {i : Nat} {result : Option Float}
    (at_place : (runningSums 0.0 values)[i]? = some result) : RunningSum values i result := by
  rw [getElem?_runningSums] at at_place
  obtain ⟨-, -, rfl⟩ := Option.map_eq_some_iff.mp at_place
  rfl

/-! ## Moving means -/

section Means

variable {window : Nat}

/-- A list that fills a window is not seen further back. -/
theorem rtake_cons {values : List Float} (fills : window ≤ values.length) (x : Float) :
    (x :: values).rtake window = values.rtake window := by
  rw [List.rtake, List.length_cons, Nat.succ_sub fills]
  rfl

/-- A full window lets its oldest value go before it takes another one in. -/
theorem rtake_next (recent : List Float) (x : Float) (later : List Float) :
    ((if recent.length = window then recent.drop 1 else recent) ++ [x] ++ later).rtake window =
      (recent ++ x :: later).rtake window := by
  by_cases full : recent.length = window
  · rw [if_pos full]
    cases recent with
    | nil => rfl
    | cons oldest recent =>
        have fills : window ≤ (recent ++ x :: later).length := by
          rw [← full, List.length_append, List.length_cons, List.length_cons]
          omega
        rw [List.append_assoc, List.drop_one, List.tail_cons]
        exact (rtake_cons fills oldest).symm
  · rw [if_neg full, List.append_assoc]
    rfl

theorem getElem?_movingMeans (positive : 0 < window) {recent : List Float}
    (fits : recent.length ≤ window) (values : List (Option Float)) (i : Nat) :
    (movingMeans window recent values)[i]? =
      values[i]?.map fun _ =>
        Binary64.mean? ((recent ++ (values.take i).reduceOption).rtake window) := by
  induction values generalizing recent i with
  | nil => rfl
  | cons x rest ih =>
      cases i with
      | zero =>
          have whole : recent.rtake window = recent := by
            rw [List.rtake, Nat.sub_eq_zero_of_le fits, List.drop_zero]
          rw [List.take_zero, List.reduceOption_nil, List.append_nil, whole]
          rfl
      | succ i =>
          cases x with
          | none => exact ih fits i
          | some x =>
              have room : ((if recent.length = window then recent.drop 1 else recent) ++
                  [x]).length ≤ window := by
                split_ifs with full
                · rw [List.length_append, List.length_drop, List.length_singleton]
                  omega
                · rw [List.length_append, List.length_singleton]
                  omega
              rw [movingMeans, List.getElem?_cons_succ, ih room i, List.getElem?_cons_succ,
                List.take_succ_cons, List.reduceOption_cons_of_some, rtake_next]

/-- The mean of the last values before a place, as many as the window holds or as there are. -/
inductive MovingMean (window : Nat) (values : List (Option Float)) (i : Nat) :
    Option Float → Prop where
  | nothing : (values.take i).reduceOption = [] → MovingMean window values i none
  | mean {older recent : List Float} : (values.take i).reduceOption = older ++ recent →
      recent.length = min window (values.take i).reduceOption.length → recent ≠ [] →
      MovingMean window values i
        (some (recent.foldl (· + ·) (-0.0) / Binary64.ofInt recent.length))

theorem movingMean_of_mem (positive : 0 < window) {values : List (Option Float)} {i : Nat}
    {result : Option Float} (at_place : (movingMeans window [] values)[i]? = some result) :
    MovingMean window values i result := by
  have empty : ([] : List Float).length ≤ window := window.zero_le
  rw [getElem?_movingMeans positive empty, List.nil_append] at at_place
  obtain ⟨-, -, rfl⟩ := Option.map_eq_some_iff.mp at_place
  generalize present : (values.take i).reduceOption = seen
  have split : seen = seen.take (seen.length - window) ++ seen.rtake window :=
    (List.take_append_drop _ seen).symm
  have length : (seen.rtake window).length = min window seen.length := by
    rw [List.rtake, List.length_drop]
    omega
  by_cases none : seen.rtake window = []
  · rw [none]
    refine .nothing ?_
    rw [present, ← List.length_eq_zero_iff]
    rw [none, List.length_nil] at length
    omega
  · rw [Binary64.mean?, if_neg (by simpa using none)]
    exact .mean (present.trans split) (present ▸ length) none

end Means

/-! ## What is made of a sequence -/

section Sequence

variable [Memory]

/-- A pipeline makes a series of a sequence: an entry for each entry, with the same keys in the same
order, whose value at each place is as told. -/
def Makes (pipeline : Pipeline) (node : Node) (sequence : List (Key × Option Float))
    (told : Nat → Option Float → Prop) : Prop :=
  ∃ series, pipeline.compute node (.sequence sequence) = .ok (.series series) ∧
    series.map (·.1) = sequence.map (·.1) ∧
    ∀ i entry, series[i]? = some entry → told i entry.2

variable {node : Node} {policy : GapPolicy} {sequence : List (Key × Option Float)}
  {values : List (Option Float)}

theorem makes_overSequence {pipeline : Pipeline} {f : List (Option Float) → List (Option Float)}
    {told : Nat → Option Float → Prop} (asked : GapPolicy.Asked node policy)
    (filled : List.Forall₂ (fun entry x => policy.Fills entry.2 x) sequence values)
    (mapped : pipeline.compute node (.sequence sequence) = overSequence node (.sequence sequence) f)
    (length : (f values).length = values.length)
    (each : ∀ i x, (f values)[i]? = some x → told i x) : Makes pipeline node sequence told := by
  have same : sequence.map (fun entry => policy.apply entry.2) = values :=
    (map_eq_of_related (f := fun entry => policy.apply entry.2) (g := id) filled
      fun _ _ fills => fills.eq_apply).symm.trans (List.map_id values)
  have keys : (sequence.map (·.1)).length = (f values).length := by
    rw [length, List.length_map, filled.length_eq]
  refine ⟨(sequence.map (·.1)).zip (f values), ?_, List.map_fst_zip keys.le, ?_⟩
  · rw [mapped, ← same]
    exact bind_eq_ok.mpr ⟨policy, GapPolicy.ofNode_of_asked asked, rfl⟩
  · intro i entry found
    obtain ⟨-, value⟩ := List.getElem?_zip_eq_some.mp found
    exact each i entry.2 value

/-- Parallel pipelines equal their definitions, over every sequence and under either gap policy: a
moving average as long as there is memory for its window. Where there is too little, as there always
is for a window of `2 ^ 60` values or more, it breaks down whatever it reads. -/
theorem series_of_sequence (asked : GapPolicy.Asked node policy)
    (filled : List.Forall₂ (fun entry x => policy.Fills entry.2 x) sequence values) :
    Makes derivative node sequence (Difference values) ∧
      Makes cumulativeSum node sequence (RunningSum values) ∧
      ∀ window, WindowAsked node window →
        (window ≤ Memory.room → Makes movingAvg node sequence (MovingMean window values)) ∧
        (Memory.room < window ∨ 1152921504606846976 ≤ window →
          ∀ input, movingAvg.compute node input = .error .breakdown) := by
  refine ⟨?_, ?_, fun window windowed => ⟨fun fits => ?_, fun lack input => ?_⟩⟩
  · exact makes_overSequence asked filled rfl (length_differences none values)
      fun i x => difference_of_mem
  · exact makes_overSequence asked filled rfl (length_runningSums 0.0 values)
      fun i x => runningSum_of_mem
  · have positive : 0 < window := by
      cases windowed with
      | unsaid => decide
      | said _ _ positive => exact positive
    refine makes_overSequence asked filled ?_ (length_movingMeans window [] values)
      fun i x => movingMean_of_mem positive
    exact compute_movingAvg_of_le (windowOf_of_asked windowed) _ fits
  · have beyond : Memory.room < window := lack.elim id Memory.room_lt.trans_le
    exact compute_movingAvg_of_lt (windowOf_of_asked windowed) input beyond

end Sequence

/-! ## Visits by hour -/

/-- A mean of as many values as the window holds. -/
def smoothed (window : Nat) : Node :=
  ⟨"smoothed", "moving_avg", .pipeline, none,
    [("buckets_path", .string "visits"), ("window", .ofNat window)], []⟩

def visitsByHour : List (Key × Option Float) :=
  [(.int 8, some 2.0), (.int 9, none), (.int 10, some Binary64.nan), (.int 11, some 9.0)]

def knownVisits : List (Option Float) := [some 2.0, none, none, some 9.0]

theorem fills_visits :
    List.Forall₂ (fun entry x => GapPolicy.skip.Fills entry.2 x) visitsByHour knownVisits := by
  have number {x : Float} (is : ¬ x.isNaN) : GapPolicy.skip.Fills (some x) (some x) :=
    ⟨fun gap => absurd (gap x rfl) is, fun _ => rfl⟩
  have gap {x : Option Float} (is : GapPolicy.IsGap x) : GapPolicy.skip.Fills x none :=
    ⟨fun _ => rfl, fun value => absurd is value⟩
  have unknown : GapPolicy.IsGap (some Binary64.nan) := by
    rintro _ ⟨⟩
    decide
  exact .cons (number (by decide)) (.cons (gap nofun) (.cons (gap unknown)
    (.cons (number (by decide)) .nil)))

/-- There is memory for a window of two values, and for one of `2 ^ 60` there is none. -/
theorem series_of_sequence_visits :
    GapPolicy.Asked (smoothed 2) .skip ∧ WindowAsked (smoothed 2) 2 ∧
      Makes derivative (smoothed 2) visitsByHour (Difference knownVisits) ∧
      Makes cumulativeSum (smoothed 2) visitsByHour (RunningSum knownVisits) ∧
      Makes movingAvg (smoothed 2) visitsByHour (MovingMean 2 knownVisits) ∧
      movingAvg.compute (smoothed 1152921504606846976) (.sequence visitsByHour) =
        .error .breakdown := by
  have asked (window : Nat) : GapPolicy.Asked (smoothed window) .skip := .unsaid rfl
  have two : WindowAsked (smoothed 2) 2 := .said rfl rfl (by decide)
  have vast : WindowAsked (smoothed 1152921504606846976) 1152921504606846976 :=
    .said rfl rfl (by decide)
  obtain ⟨differences, sums, means⟩ := series_of_sequence (asked 2) fills_visits
  refine ⟨asked 2, two, differences, sums, (means 2 two).1 (by decide), ?_⟩
  obtain ⟨-, -, means⟩ := series_of_sequence (asked 1152921504606846976) fills_visits
  exact (means _ vast).2 (.inr le_rfl) (.sequence visitsByHour)

end Pipeline

end Rollup
