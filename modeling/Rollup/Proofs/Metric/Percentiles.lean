import Rollup.Metric.Percentiles
import Rollup.Proofs.Binary64.Interpolation
import Rollup.Proofs.Success

/-! # Percentiles stay among the values

A percentile is found between two neighbours in the list, by way of rounded operations. The ranks never
leave the list, and rounding never takes a percentile past its neighbours. Only if the distance between
these overflows is the percentile not finite.
-/

namespace Rollup

namespace Percentiles

open Binary64

/-! ## Ranks -/

/-- The place of a percentile among so many values, counted from zero. -/
def rank (count : ℕ) (percent : Float) : Float := percent / 100.0 * ofInt ((count - 1 : ℕ) : ℤ)

theorem finite_hundred : (100.0 : Float).isFinite := by decide

theorem amount_hundred : amount 100.0 = 100 := by
  have parts : scaled 100.0 = ⟨false, 7036874417766400, -46⟩ := by decide
  rw [amount, parts]
  norm_num

theorem finite_one : (1.0 : Float).isFinite := by decide

theorem amount_one : amount 1.0 = 1 := by
  have parts : scaled 1.0 = ⟨false, 4503599627370496, -52⟩ := by decide
  rw [amount, parts]
  norm_num

/-- A number from 0 to 100. -/
structure Accepted (percent : Float) : Prop where
  finite : percent.isFinite
  nonneg : 0 ≤ amount percent
  le : amount percent ≤ 100

theorem accepted_of_le {percent : Float} (low : 0.0 ≤ percent) (high : percent ≤ 100.0) :
    Accepted percent := by
  have finite := isFinite_of_between finite_zero finite_hundred low high
  refine ⟨finite, ?_, ?_⟩
  · rw [← amount_zero]
    exact amount_le_of_le finite_zero finite low
  · rw [← amount_hundred]
    exact amount_le_of_le finite finite_hundred high

theorem accepted_of_percentsOf {node : Node} {percents : List Float}
    (asked : percentsOf node = .ok percents) : ∀ percent ∈ percents, Accepted percent := by
  unfold percentsOf at asked
  split at asked
  · cases asked
    have each : ∀ percent ∈ defaultPercents, 0.0 ≤ percent ∧ percent ≤ 100.0 := by decide +kernel
    exact fun percent member => accepted_of_le (each percent member).1 (each percent member).2
  · intro percent member
    obtain ⟨item, -, read⟩ := exists_item asked member
    split at read
    · split at read
      · rename_i inside
        cases read
        exact accepted_of_le inside.1 inside.2
      · cases read
    · cases read
  · cases asked

/-- The rank of a percent is between the first place and the last, and is one of these for 0 and 100. -/
structure Ranked (count : ℕ) (percent : Float) : Prop where
  finite : (rank count percent).isFinite
  nonneg : 0 ≤ amount (rank count percent)
  le : amount (rank count percent) ≤ (count - 1 : ℕ)
  first : amount percent = 0 → amount (rank count percent) = 0
  last : amount percent = 100 → amount (rank count percent) = (count - 1 : ℕ)

theorem ranked {count : ℕ} (few : count ≤ 2 ^ 53) {percent : Float} (accepted : Accepted percent) :
    Ranked count percent := by
  have faithful : Faithful ((count - 1 : ℕ) : ℤ) := faithful_of_lt (by omega)
  obtain ⟨hn, last⟩ := faithful
  rw [Int.cast_natCast] at last
  have many : (0 : ℚ) ≤ (count - 1 : ℕ) := Nat.cast_nonneg _
  -- The percent as a share of one.
  have shared := roundsTo_div accepted.finite finite_hundred (by rw [amount_hundred]; norm_num)
  rw [amount_hundred] at shared
  obtain ⟨hs, low, high⟩ := shared.between finite_zero finite_one
    (by rw [amount_zero]; linarith [accepted.nonneg]) (by rw [amount_one]; linarith [accepted.le])
  rw [amount_zero] at low
  rw [amount_one] at high
  -- The share of the last place.
  have product := roundsTo_mul hs hn
  rw [last] at product
  obtain ⟨finite, nonneg, le⟩ := product.between finite_zero hn
    (by rw [amount_zero]; exact mul_nonneg low many)
    (by rw [last]; exact mul_le_of_le_one_left many high)
  rw [amount_zero] at nonneg
  rw [last] at le
  refine ⟨finite, nonneg, le, fun zero => ?_, fun hundred => ?_⟩
  · have none := (shared.exact finite_zero (by rw [amount_zero, zero, zero_div])).2
    rw [none, zero, zero_div, zero_mul] at product
    exact (product.exact finite_zero amount_zero).2
  · have all := (shared.exact finite_one (by rw [amount_one, hundred]; norm_num)).2
    rw [all, hundred, div_self (by norm_num), one_mul] at product
    exact (product.exact hn last).2

/-- The fractional part of a rank is exact. -/
theorem Ranked.fraction {count : ℕ} (few : count ≤ 2 ^ 53) {percent : Float}
    (ranked : Ranked count percent) :
    let part := rank count percent - ofInt (floor (rank count percent))
    part.isFinite ∧ 0 ≤ amount part ∧ amount part ≤ 1 - 2 ^ (-53 : ℤ) := by
  obtain ⟨finite, nonneg, le, -, -⟩ := ranked
  generalize rank count percent = place at *
  have low : 0 ≤ floor place := by
    rw [floor_eq]
    exact Int.floor_nonneg.mpr nonneg
  have high : floor place ≤ (count - 1 : ℕ) := by
    rw [floor_eq]
    exact_mod_cast (Int.floor_le _).trans le
  obtain ⟨hw, whole⟩ := faithful_of_lt (n := floor place) (by omega)
  have below := Int.fract_lt_one (amount place)
  have above := Int.fract_nonneg (amount place)
  have grid := (onGrid_amount finite).fract nonneg
  obtain ⟨y, hy, is⟩ := exists_of_onGrid grid (by
    rw [abs_of_nonneg above]
    exact below.trans (one_lt_zpow₀ (by norm_num) (by norm_num)))
  have rounds := roundsTo_sub finite hw
  rw [whole, floor_eq, ← Int.fract] at rounds
  obtain ⟨hf, exactly⟩ := rounds.exact hy is
  rw [← floor_eq] at hf exactly
  dsimp only
  rw [exactly]
  exact ⟨hf, above, grid.le_of_lt_one below⟩

/-! ## Neighbours -/

/-- The values in ascending order. -/
def ascending (values : List Float) : Array Float :=
  (values.mergeSort fun x y => (compareTotal x y).isLE).toArray

/-- The values next to a place, which are read where there are values. -/
structure Neighbours (sorted : Array Float) (place lower upper : Float) : Prop where
  nonneg : 0 ≤ floor place
  lower : sorted[(floor place).toNat]? = some lower
  upper : sorted[(ceil place).toNat]? = some upper

theorem exists_neighbours (sorted : Array Float) (some : 0 < sorted.size) {place : Float}
    (nonneg : 0 ≤ amount place) (le : amount place ≤ (sorted.size - 1 : ℕ)) :
    ∃ lower upper, Neighbours sorted place lower upper := by
  have low : 0 ≤ floor place := by
    rw [floor_eq]
    exact Int.floor_nonneg.mpr nonneg
  have order : floor place ≤ ceil place := by
    rw [floor_eq, ceil_eq]
    exact Int.floor_le_ceil _
  have high : ceil place ≤ (sorted.size - 1 : ℕ) := by
    rw [ceil_eq, Int.ceil_le]
    exact_mod_cast le
  exact ⟨sorted[(floor place).toNat], sorted[(ceil place).toNat], low,
    Array.getElem?_eq_getElem (by omega), Array.getElem?_eq_getElem (by omega)⟩

theorem interpolate_eq {sorted : Array Float} (percent : Float) {lower upper : Float}
    (neighbours : Neighbours sorted (rank sorted.size percent) lower upper) :
    interpolate sorted percent = lower + (upper - lower) *
      (rank sorted.size percent - ofInt (floor (rank sorted.size percent))) := by
  have first := neighbours.lower
  have second := neighbours.upper
  rw [rank] at *
  rw [interpolate]
  simp only [Array.getD_eq_getD_getElem?, first, second, Option.getD_some]

theorem amount_mono {values : List Float} {i j : ℕ} {x y : Float} (le : i ≤ j)
    (first : (ascending values)[i]? = some x) (second : (ascending values)[j]? = some y) :
    amount x ≤ amount y := by
  rw [ascending, List.getElem?_toArray, List.getElem?_eq_some_iff] at first second
  obtain ⟨hi, rfl⟩ := first
  obtain ⟨hj, rfl⟩ := second
  rcases le.eq_or_lt with rfl | less
  · exact le_refl _
  · exact amount_le_of_rank (List.pairwise_iff_getElem.mp (pairwise_rank values) i j hi hj less)

theorem mem_of_getElem? {values : List Float} {i : ℕ} {x : Float}
    (found : (ascending values)[i]? = some x) : x ∈ values := by
  rw [ascending, List.getElem?_toArray] at found
  exact (List.mergeSort_perm values _).mem_iff.mp (List.mem_of_getElem? found)

theorem exists_place {values : List Float} {x : Float} (member : x ∈ values) :
    ∃ i < values.length, (ascending values)[i]? = some x := by
  have among := (List.mergeSort_perm values fun x y => (compareTotal x y).isLE).mem_iff.mpr member
  obtain ⟨i, bound, is⟩ := List.getElem_of_mem among
  refine ⟨i, by rwa [List.length_mergeSort] at bound, ?_⟩
  rw [ascending, List.getElem?_toArray, List.getElem?_eq_getElem bound, is]

theorem size_ascending (values : List Float) : (ascending values).size = values.length :=
  List.length_mergeSort _

/-! ## Percentiles -/

/-- The amounts of some values. -/
def amounts (values : List Float) : Set ℚ := { q | ∃ value ∈ values, amount value = q }

theorem isLeast_first {values : List Float} {x : Float} (first : (ascending values)[0]? = some x) :
    IsLeast (amounts values) (amount x) := by
  refine ⟨⟨x, mem_of_getElem? first, rfl⟩, ?_⟩
  rintro _ ⟨value, member, rfl⟩
  obtain ⟨i, -, there⟩ := exists_place member
  exact amount_mono (Nat.zero_le i) first there

theorem isGreatest_last {values : List Float} {x : Float}
    (last : (ascending values)[values.length - 1]? = some x) :
    IsGreatest (amounts values) (amount x) := by
  refine ⟨⟨x, mem_of_getElem? last, rfl⟩, ?_⟩
  rintro _ ⟨value, member, rfl⟩
  obtain ⟨i, bound, there⟩ := exists_place member
  exact amount_mono (by omega) there last

/-- A percentile between two values: it is finite exactly if the distance between these is, is then not
less than the least value and not more than the greatest, and is one of these for 0 and 100. -/
structure Interpolates (values : List Float) (percent lower upper result : Float) : Prop where
  neighbours : Neighbours (ascending values) (rank values.length percent) lower upper
  finite_iff : result.isFinite ↔ (upper - lower).isFinite
  between : result.isFinite → ∀ least greatest, IsLeast (amounts values) least →
    IsGreatest (amounts values) greatest → least ≤ amount result ∧ amount result ≤ greatest
  first : amount percent = 0 → result.isFinite ∧ IsLeast (amounts values) (amount result)
  last : amount percent = 100 → result.isFinite ∧ IsGreatest (amounts values) (amount result)

/-- At a whole place both neighbours are the value there. -/
theorem Neighbours.at_whole {sorted : Array Float} {place lower upper : Float}
    (neighbours : Neighbours sorted place lower upper) {n : ℕ} (whole : amount place = n) :
    sorted[n]? = some lower ∧ upper = lower := by
  obtain ⟨-, first, second⟩ := neighbours
  rw [floor_eq, whole, Int.floor_natCast, Int.toNat_natCast] at first
  rw [ceil_eq, whole, Int.ceil_natCast, Int.toNat_natCast, first] at second
  exact ⟨first, (Option.some.inj second).symm⟩

/-- The percentile of a percent is interpolated. -/
theorem exists_interpolates {values : List Float} (some : values ≠ [])
    (finite : ∀ value ∈ values, value.isFinite) (few : values.length ≤ 2 ^ 53) {percent : Float}
    (accepted : Accepted percent) :
    ∃ lower upper, Interpolates values percent lower upper
      (interpolate (ascending values) percent) := by
  have length : 0 < values.length := List.length_pos_iff.mpr some
  have ranked := ranked few accepted
  obtain ⟨hf, nonneg, below⟩ := ranked.fraction few
  obtain ⟨lower, upper, neighbours⟩ :=
    exists_neighbours (ascending values) (by rwa [size_ascending]) ranked.nonneg
      (by rw [size_ascending]; exact ranked.le)
  have same := interpolate_eq percent (by rw [size_ascending]; exact neighbours)
  rw [size_ascending] at same
  have hl : lower.isFinite := finite lower (mem_of_getElem? neighbours.lower)
  have hu : upper.isFinite := finite upper (mem_of_getElem? neighbours.upper)
  have ordered : amount lower ≤ amount upper := by
    refine amount_mono (Int.toNat_le_toNat ?_) neighbours.lower neighbours.upper
    rw [floor_eq, ceil_eq]
    exact Int.floor_le_ceil _
  have inside (spread : (upper - lower).isFinite) :=
    interpolated_between hl hu hf ordered spread nonneg below
  rw [← same] at inside
  -- At a whole place there is no distance, so the percentile is the value there.
  have whole {n : ℕ} (is : amount (rank values.length percent) = n) :
      (ascending values)[n]? = .some lower ∧ (interpolate (ascending values) percent).isFinite ∧
        amount (interpolate (ascending values) percent) = amount lower := by
    obtain ⟨found, rfl⟩ := neighbours.at_whole is
    obtain ⟨result, low, high⟩ := inside (sub_self_finite hl)
    exact ⟨found, result, le_antisymm high low⟩
  have spread (result : (interpolate (ascending values) percent).isFinite) :
      (upper - lower).isFinite := by
    by_contra overflow
    rw [same] at result
    exact not_isFinite_add (not_isFinite_mul overflow) result
  refine ⟨lower, upper, neighbours, ⟨spread, fun spread => (inside spread).1⟩, ?_, ?_, ?_⟩
  · intro result least greatest isLeast isGreatest
    obtain ⟨-, low, high⟩ := inside (spread result)
    exact ⟨(isLeast.2 ⟨lower, mem_of_getElem? neighbours.lower, rfl⟩).trans low,
      high.trans (isGreatest.2 ⟨upper, mem_of_getElem? neighbours.upper, rfl⟩)⟩
  · intro zero
    obtain ⟨found, result, is⟩ := whole (n := 0) (by rw [ranked.first zero, Nat.cast_zero])
    rw [is]
    exact ⟨result, isLeast_first found⟩
  · intro hundred
    obtain ⟨found, result, is⟩ := whole (ranked.last hundred)
    rw [is]
    exact ⟨result, isGreatest_last found⟩

/-- For each percent that is asked for there is a percentile, in their order, and it is interpolated
between two of the values. -/
theorem ofValues_interpolates {node : Node} {values percents : List Float}
    (asked : percentsOf node = .ok percents) (some : values ≠ [])
    (finite : ∀ value ∈ values, value.isFinite) (few : values.length ≤ 2 ^ 53) :
    List.Forall₂ (fun percent entry => entry.1 = percent ∧ ∃ lower upper result,
        entry.2 = .some result ∧ Interpolates values percent lower upper result)
      percents (ofValues values percents) := by
  have filled : (ascending values).isEmpty = false := by
    rw [Array.isEmpty_eq_false_iff, ← Array.size_pos_iff, size_ascending]
    exact List.length_pos_iff.mpr some
  have same : ofValues values percents =
      percents.map fun percent => (percent, .some (interpolate (ascending values) percent)) := by
    show percents.map (fun percent => (percent,
      if (ascending values).isEmpty then none else .some (interpolate (ascending values) percent))) = _
    rw [filled]
    rfl
  rw [same, List.forall₂_map_right_iff, List.forall₂_same]
  intro percent member
  obtain ⟨lower, upper, interpolates⟩ :=
    exists_interpolates some finite few (accepted_of_percentsOf asked percent member)
  exact ⟨rfl, lower, upper, _, rfl, interpolates⟩

/-- The ages at both ends and in the middle. -/
def ages : Node where
  name := "ages"
  typeName := "percentiles"
  kind := .metric
  field := some "age"
  params := [("percents", .array [.number (.int 100), .number (.int 50), .number (.int 0)])]
  children := []

theorem ofValues_interpolates_ages :
    percentsOf ages = .ok [100.0, 50.0, 0.0] ∧
      (∀ age ∈ [30.0, 10.0, 25.0], Float.isFinite age) ∧
      List.Forall₂ (fun percent entry => entry.1 = percent ∧ ∃ lower upper result,
          entry.2 = .some result ∧ Interpolates [30.0, 10.0, 25.0] percent lower upper result)
        [100.0, 50.0, 0.0] (ofValues [30.0, 10.0, 25.0] [100.0, 50.0, 0.0]) := by
  have asked : percentsOf ages = .ok [100.0, 50.0, 0.0] := rfl
  have finite : ∀ age ∈ [30.0, 10.0, 25.0], Float.isFinite age := by decide +kernel
  exact ⟨asked, finite, ofValues_interpolates asked (List.cons_ne_nil _ _) finite (by norm_num)⟩

end Percentiles

end Rollup
