import Rollup.Proofs.Binary64.Arithmetic

/-! # Going a fraction of the way from one number to another

The distance of two numbers, its product with a fraction below one and the sum with the lower number are
rounded each, and still the result is not past the upper number: where the distance is rounded up, the
fraction of it that is added is small enough to make up for that.
-/

namespace Rollup

namespace Binary64

/-! ## Fractions -/

/-- What lies below one on the grid lies below it by the last of 53 bits. -/
theorem OnGrid.le_of_lt_one {q : ℚ} (grid : OnGrid q) (below : q < 1) :
    q ≤ 1 - 2 ^ (-53 : ℤ) := by
  obtain ⟨k, e, short, -, rfl⟩ := grid
  have unit : (0 : ℚ) < 2 ^ e := zpow_pos (by norm_num) e
  have bits : (k : ℚ) < 2 ^ (53 : ℤ) := by exact_mod_cast (le_abs_self k).trans_lt short
  by_cases fine : e < -53
  · calc (k : ℚ) * 2 ^ e ≤ 2 ^ (53 : ℤ) * 2 ^ e := mul_le_mul_of_nonneg_right bits.le unit.le
      _ = 2 ^ (53 + e) := (zpow_add₀ (by norm_num) _ _).symm
      _ ≤ 2 ^ (-1 : ℤ) := zpow_le_zpow_right₀ (by norm_num) (by omega)
      _ ≤ 1 - 2 ^ (-53 : ℤ) := by norm_num
  by_cases whole : 0 ≤ e
  · obtain ⟨n, rfl⟩ := Int.eq_ofNat_of_zero_le whole
    have least : k * 2 ^ n < 1 := by exact_mod_cast below
    have none : ((k * 2 ^ n : ℤ) : ℚ) ≤ ((0 : ℤ) : ℚ) := Int.cast_le.mpr (by omega)
    push_cast at none
    have last : (2 : ℚ) ^ (-53 : ℤ) ≤ 1 := by norm_num
    rw [zpow_natCast]
    linarith
  · obtain ⟨n, up⟩ := Int.eq_ofNat_of_zero_le (by omega : 0 ≤ -e)
    obtain rfl : e = -n := by omega
    have scale : (2 : ℚ) ^ (-n : ℤ) * 2 ^ n = 1 := by
      rw [← zpow_natCast, ← zpow_add₀ (by norm_num), neg_add_cancel, zpow_zero]
    have least : k < 2 ^ n := by
      have : (k : ℚ) < 2 ^ n := by
        calc (k : ℚ) = k * 2 ^ (-n : ℤ) * 2 ^ n := by rw [mul_assoc, scale, mul_one]
          _ < 1 * 2 ^ n := mul_lt_mul_of_pos_right below (pow_pos two_pos n)
          _ = 2 ^ n := one_mul _
      exact_mod_cast this
    have next : (k : ℚ) + 1 ≤ 2 ^ n := by exact_mod_cast Int.add_one_le_of_lt least
    have last : (2 : ℚ) ^ (-53 : ℤ) ≤ 2 ^ (-n : ℤ) := zpow_le_zpow_right₀ (by norm_num) (by omega)
    have scaled := mul_le_mul_of_nonneg_right next unit.le
    rw [add_mul, one_mul, mul_comm (2 ^ n), scale] at scaled
    linarith

/-- The fractional part of a positive amount is on the grid. -/
theorem OnGrid.fract {q : ℚ} (grid : OnGrid q) (positive : 0 ≤ q) : OnGrid (Int.fract q) := by
  obtain ⟨k, e, short, fits, rfl⟩ := grid
  have unit : (0 : ℚ) < 2 ^ e := zpow_pos (by norm_num) e
  have sign : 0 ≤ k := by exact_mod_cast nonneg_of_mul_nonneg_left positive unit
  by_cases whole : 0 ≤ e
  · obtain ⟨n, rfl⟩ := Int.eq_ofNat_of_zero_le whole
    have none : Int.fract ((k : ℚ) * 2 ^ (n : ℤ)) = 0 := by
      rw [zpow_natCast]
      exact_mod_cast Int.fract_intCast (k * 2 ^ n)
    rw [none]
    exact ⟨0, 0, by norm_num, by norm_num, by norm_num⟩
  · obtain ⟨n, up⟩ := Int.eq_ofNat_of_zero_le (by omega : 0 ≤ -e)
    obtain rfl : e = -n := by omega
    obtain ⟨m, rfl⟩ := Int.eq_ofNat_of_zero_le sign
    have part : Int.fract (((m : ℤ) : ℚ) * 2 ^ (-n : ℤ)) = ((m % 2 ^ n : ℕ) : ℤ) * 2 ^ (-n : ℤ) := by
      have divided (j : ℕ) : (((j : ℕ) : ℤ) : ℚ) * 2 ^ (-n : ℤ) = j / (2 ^ n : ℕ) := by
        rw [zpow_neg, zpow_natCast, div_eq_mul_inv]
        push_cast
        rfl
      rw [divided, divided, Int.fract_div_natCast_eq_div_natCast_mod]
    refine ⟨(m % 2 ^ n : ℕ), -n, ?_, fits, part⟩
    rw [Nat.abs_cast] at short ⊢
    have le : m % 2 ^ n ≤ m := Nat.mod_le _ _
    omega

/-! ## The number below -/

theorem finite_zero : (0.0 : Float).isFinite := by decide

theorem amount_zero : amount 0.0 = 0 := amount_of_magnitude (by decide)

/-- Amounts are whole numbers of the least unit. -/
theorem exists_units {x : Float} (finite : x.isFinite) : ∃ k : ℤ, amount x = k * 2 ^ (-1074 : ℤ) := by
  obtain ⟨k, e, -, fits, same⟩ := onGrid_amount finite
  obtain ⟨n, up⟩ := Int.eq_ofNat_of_zero_le (by omega : 0 ≤ e + 1074)
  refine ⟨k * 2 ^ n, ?_⟩
  obtain rfl : e = n + -1074 := by omega
  rw [same, zpow_add₀ (by norm_num), zpow_natCast, ← mul_assoc, Int.cast_mul, Int.cast_pow,
    Int.cast_ofNat]

/-- A positive number has all bits of its significand, or the least unit. -/
theorem exists_significand {x : Float} (finite : x.isFinite) (positive : 0 < amount x) :
    ∃ (m : ℕ) (e : ℤ), amount x = m * 2 ^ e ∧ m < 2 ^ 53 ∧ -1074 ≤ e ∧ (2 ^ 52 ≤ m ∨ e = -1074) := by
  obtain ⟨canonical, -⟩ := place_toModel finite
  rw [amount_eq_value finite] at positive ⊢
  generalize x.toModel.unpack = u at canonical positive
  cases u with
  | notANumber => cases canonical
  | infinity s => cases canonical
  | zero s => exact absurd rfl positive.ne
  | finite s m e some =>
      have size : (0 : ℚ) ≤ m * 2 ^ e := mul_nonneg m.cast_nonneg (zpow_pos (by norm_num) e).le
      cases s with
      | negative =>
          rw [value, factor] at positive
          linarith
      | positive => exact ⟨m, e, by rw [value, factor, one_mul], canonical⟩

theorem exists_unit_below {x : Float} (finite : x.isFinite) {k t : ℤ} (positive : 0 ≤ k)
    (short : k < 2 ^ 53) (fits : -1074 ≤ t) (same : amount x = (k + 1) * 2 ^ t) :
    ∃ y : Float, y.isFinite ∧ amount y = amount x - 2 ^ t := by
  have unit : (0 : ℚ) < 2 ^ t := zpow_pos (by norm_num) t
  have sign : (0 : ℚ) ≤ k * 2 ^ t := mul_nonneg (Int.cast_nonneg positive) unit.le
  have next : amount x - 2 ^ t = k * 2 ^ t := by
    rw [same]
    ring
  rw [next]
  refine exists_of_onGrid ⟨k, t, by rwa [abs_of_nonneg positive], fits, rfl⟩ ?_
  have bound := (le_abs_self _).trans_lt (abs_amount_lt finite)
  rw [abs_of_nonneg sign]
  linarith

/-- A positive number with all bits of its significand has one right below it. -/
theorem exists_below {x : Float} (finite : x.isFinite) {m : ℕ} {e : ℤ} (same : amount x = m * 2 ^ e)
    (full : 2 ^ 52 ≤ m) (short : m < 2 ^ 53) (fits : -1074 < e) :
    ∃ y : Float, y.isFinite ∧ amount y < amount x ∧
      amount x - amount y < amount x * 2 ^ (-52 : ℤ) := by
  have unit : (0 : ℚ) < 2 ^ e := zpow_pos (by norm_num) e
  have share : amount x * 2 ^ (-52 : ℤ) = m / 2 ^ (52 : ℤ) * 2 ^ e := by
    rw [same, zpow_neg]
    ring
  rcases full.eq_or_lt with least | more
  · -- The number below has the exponent before.
    have half : (2 : ℚ) ^ e = 2 * 2 ^ (e - 1) := by
      rw [← zpow_one_add₀ (by norm_num)]
      congr 1
      ring
    obtain ⟨y, hy, is⟩ := exists_unit_below finite (k := 2 ^ 53 - 1) (t := e - 1) (by norm_num)
      (by norm_num) (by omega) (by rw [same, ← least, half]; push_cast; ring)
    refine ⟨y, hy, by linarith, ?_⟩
    rw [share, ← least, is, sub_sub_cancel]
    norm_num
  · obtain ⟨y, hy, is⟩ := exists_unit_below finite (k := m - 1) (t := e) (by omega) (by omega) fits.le
      (by rw [same]; push_cast; ring)
    have units : (1 : ℚ) < m / 2 ^ (52 : ℤ) := by
      rw [one_lt_div (by positivity)]
      exact_mod_cast more
    refine ⟨y, hy, by linarith, ?_⟩
    rw [share, is, sub_sub_cancel]
    exact lt_mul_of_one_lt_left unit units

/-! ## Interpolation -/

variable {lower upper fraction : Float}

theorem sub_self_finite {x : Float} (finite : x.isFinite) : (x - x).isFinite := by
  have rounds := roundsTo_sub finite finite
  rw [sub_self] at rounds
  exact (rounds.exact finite_zero amount_zero).1

/-- A difference is not rounded up, or all bits of its significand are there. -/
theorem sub_le_or_full (hl : lower.isFinite) (hu : upper.isFinite)
    (ordered : amount lower ≤ amount upper) (finite : (upper - lower).isFinite) :
    amount (upper - lower) ≤ amount upper - amount lower ∨
      ∃ (m : ℕ) (e : ℤ), amount (upper - lower) = m * 2 ^ e ∧
        2 ^ 52 ≤ m ∧ m < 2 ^ 53 ∧ -1074 < e := by
  by_cases exactly : amount (upper - lower) ≤ amount upper - amount lower
  · exact .inl exactly
  have up : amount upper - amount lower < amount (upper - lower) := not_le.mp exactly
  have positive : 0 < amount (upper - lower) := (sub_nonneg.mpr ordered).trans_lt up
  have bound := abs_amount_lt finite
  rw [abs_of_pos positive] at bound
  obtain ⟨m, e, same, short, fits, full⟩ := exists_significand finite positive
  by_cases least : e = -1074
  · -- Below 2⁵³ least units, every whole number of them is a number, so the difference is exact.
    subst least
    have unit : (0 : ℚ) < 2 ^ (-1074 : ℤ) := zpow_pos (by norm_num) _
    obtain ⟨j, units⟩ := exists_units hu
    obtain ⟨k, units'⟩ := exists_units hl
    have distance : amount upper - amount lower = (j - k : ℤ) * 2 ^ (-1074 : ℤ) := by
      rw [units, units', ← sub_mul, Int.cast_sub]
    have low : 0 ≤ j - k := by
      rw [← sub_nonneg, distance] at ordered
      exact_mod_cast nonneg_of_mul_nonneg_left ordered unit
    have high : j - k < m := by
      rw [distance, same] at up
      exact_mod_cast lt_of_mul_lt_mul_right up unit.le
    obtain ⟨y, hy, is⟩ := exists_of_onGrid (q := amount upper - amount lower)
      ⟨j - k, -1074, by rw [abs_of_nonneg low]; omega, le_refl _, distance⟩
      (by rw [abs_of_nonneg (sub_nonneg.mpr ordered)]; exact up.trans bound)
    obtain ⟨-, unchanged⟩ := (roundsTo_sub hu hl).exact hy is
    exact absurd unchanged up.ne'
  · exact .inr ⟨m, e, same, full.resolve_right least, short, by omega⟩

/-- What is added to the lower neighbour is not more than the distance to the upper one, though that is
rounded itself. -/
theorem part_le (hl : lower.isFinite) (hu : upper.isFinite) (hf : fraction.isFinite)
    (ordered : amount lower ≤ amount upper) (finite : (upper - lower).isFinite)
    (positive : 0 ≤ amount fraction) (below : amount fraction ≤ 1 - 2 ^ (-53 : ℤ)) :
    ((upper - lower) * fraction).isFinite ∧ 0 ≤ amount ((upper - lower) * fraction) ∧
      amount ((upper - lower) * fraction) ≤ amount upper - amount lower := by
  have last : (0 : ℚ) < 2 ^ (-53 : ℤ) := by norm_num
  have distance := roundsTo_sub hu hl
  have product := roundsTo_mul finite hf
  have apart : 0 ≤ amount upper - amount lower := sub_nonneg.mpr ordered
  have sign : 0 ≤ amount (upper - lower) := by
    have := distance.ge finite finite_zero (by rwa [amount_zero])
    rwa [amount_zero] at this
  have part : amount (upper - lower) * amount fraction ≤ amount (upper - lower) :=
    mul_le_of_le_one_right sign (by linarith)
  obtain ⟨hw, low, high⟩ := product.between finite_zero finite
    (by rw [amount_zero]; exact mul_nonneg sign positive) part
  rw [amount_zero] at low
  refine ⟨hw, low, ?_⟩
  rcases sub_le_or_full hl hu ordered finite with down | ⟨m, e, same, full, short, fits⟩
  · exact high.trans down
  by_contra more
  have more : amount upper - amount lower < amount ((upper - lower) * fraction) := not_le.mp more
  -- Nothing lies between the distance and what it is rounded to, so the product is all of it.
  have all : amount ((upper - lower) * fraction) = amount (upper - lower) := by
    refine le_antisymm high ?_
    have nearest := distance.nearest finite _ hw
    rw [abs_of_pos (by linarith), abs_of_pos (by linarith)] at nearest
    linarith
  -- But the number below is nearer to the product.
  obtain ⟨y, hy, less, gap⟩ := exists_below finite same full short fits
  have cut : amount (upper - lower) * amount fraction ≤
      amount (upper - lower) - amount (upper - lower) * 2 ^ (-53 : ℤ) := by
    have := mul_le_mul_of_nonneg_left below sign
    linarith
  have half : amount (upper - lower) * 2 ^ (-52 : ℤ) = 2 * (amount (upper - lower) * 2 ^ (-53 : ℤ)) := by
    norm_num
    ring
  have nearest := product.nearest hw y hy
  rw [all, abs_of_nonneg (by linarith)] at nearest
  rcases le_total (amount y) (amount (upper - lower) * amount fraction) with before | after
  · rw [abs_of_nonpos (sub_nonpos.mpr before)] at nearest
    linarith
  · rw [abs_of_nonneg (sub_nonneg.mpr after)] at nearest
    linarith

/-- Between two numbers, a fraction of their distance leads to a number between them, unless the distance
overflows. -/
theorem interpolated_between (hl : lower.isFinite) (hu : upper.isFinite) (hf : fraction.isFinite)
    (ordered : amount lower ≤ amount upper) (finite : (upper - lower).isFinite)
    (positive : 0 ≤ amount fraction) (below : amount fraction ≤ 1 - 2 ^ (-53 : ℤ)) :
    (lower + (upper - lower) * fraction).isFinite ∧
      amount lower ≤ amount (lower + (upper - lower) * fraction) ∧
      amount (lower + (upper - lower) * fraction) ≤ amount upper := by
  obtain ⟨hw, low, high⟩ := part_le hl hu hf ordered finite positive below
  exact (roundsTo_add hl hw).between hl hu (by linarith) (by linarith)

end Binary64

end Rollup
