import Rollup.Proofs.Binary64.Faithful
import Rollup.Proofs.Binary64.Nearest

/-! # Arithmetic on floating-point numbers

Each operation on finite numbers gives the number nearest to the exact result, and is finite if any
number reaches as far. So results stay between numbers that the exact result lies between, and a result
that is itself a number is exact.
-/

namespace Rollup.Binary64

open Float.Model Float.Model.UnpackedFloat

variable {x y : Float}

/-! ## Amounts of what is unpacked -/

theorem amount_eq_value (finite : x.isFinite) : amount x = value x.toModel.unpack := by
  obtain ⟨canonical, placed⟩ := place_toModel finite
  generalize x.toModel.unpack = u at canonical placed
  cases u with
  | notANumber => cases canonical
  | infinity s => cases canonical
  | zero s =>
      refine amount_of_magnitude ?_
      have none : place (.zero s) = 0 := rfl
      rw [none, signedMagnitude] at placed
      split_ifs at placed <;> omega
  | finite s m e positive =>
      obtain ⟨short, least, full⟩ := canonical
      obtain ⟨up, rfl⟩ : ∃ up : ℕ, e = up - 1074 := ⟨(e + 1074).toNat, by omega⟩
      simp only [hiddenBit] at short full
      rw [signedMagnitude] at placed
      have size : magnitude x = up * hiddenBit + m := by
        simp only [place, hiddenBit] at placed ⊢
        cases negative : isNegative x <;> cases s <;>
          simp only [Sign.apply, negative, if_true, Bool.false_eq_true, if_false] at placed <;> omega
      have sign : (if isNegative x then -1 else 1) = factor s := by
        simp only [place, hiddenBit] at placed
        cases negative : isNegative x <;> cases s <;>
          simp only [Sign.apply, negative, if_true, Bool.false_eq_true, if_false] at placed ⊢ <;>
          first | rfl | exact absurd placed (by omega)
      have apart : scaled x = ⟨isNegative x, m, up - 1074⟩ := by
        have field : magnitude x / hiddenBit = up + m / hiddenBit := by
          simp only [size, hiddenBit]
          omega
        have fraction : magnitude x % hiddenBit = m % hiddenBit := by
          simp only [size, hiddenBit]
          omega
        simp only [scaled, field, fraction]
        split_ifs with none
        · have small : m % hiddenBit = m := by
            simp only [hiddenBit] at none ⊢
            omega
          have low : up = 0 := Nat.eq_zero_of_add_eq_zero_right none
          rw [small, low]
          rfl
        · have large : hiddenBit + m % hiddenBit = m := by
            simp only [hiddenBit] at none ⊢
            omega
          have above : ((up + m / hiddenBit : ℕ) : ℤ) - 1075 = up - 1074 := by
            simp only [hiddenBit] at none ⊢
            omega
          rw [large, above]
      rw [amount, apart, value, ← sign, mul_assoc]

/-- Amounts of finite numbers are on the grid, -/
theorem onGrid_value {u : UnpackedFloat} (canonical : Canonical u) : OnGrid (value u) := by
  have zero : OnGrid 0 := ⟨0, 0, by norm_num, by norm_num, by norm_num⟩
  cases u with
  | notANumber => exact zero
  | infinity s => exact zero
  | zero s => exact zero
  | finite s m e positive =>
      obtain ⟨short, fits, -⟩ := canonical
      refine ⟨s.apply m, e, ?_, fits, ?_⟩
      · have bound : (m : ℤ) < 2 ^ 53 := by exact_mod_cast short
        cases s with
        | negative => rwa [Sign.apply, abs_neg, Nat.abs_cast]
        | positive => rwa [Sign.apply, Nat.abs_cast]
      · rw [apply_eq, value, mul_assoc]

theorem onGrid_amount (finite : x.isFinite) : OnGrid (amount x) := by
  rw [amount_eq_value finite]
  exact onGrid_value (place_toModel finite).1

/-! ## The nearest number -/

/-- A number is the nearest one to an amount, and is finite if any number reaches as far. -/
structure RoundsTo (q : ℚ) (x : Float) : Prop where
  nearest : x.isFinite → ∀ y : Float, y.isFinite → |amount x - q| ≤ |amount y - q|
  bounded : ∀ y : Float, y.isFinite → |q| ≤ |amount y| → x.isFinite

/-- A canonical number is packed as it is, or overflows. -/
theorem amount_pack {u : UnpackedFloat} (canonical : Canonical u)
    (finite : (Float.ofModel (Float.Model.pack u)).isFinite) :
    amount (Float.ofModel (Float.Model.pack u)) = value u := by
  rw [amount_eq_value finite]
  show value (Float.Model.pack u).unpack = value u
  rw [unpack_pack canonical]
  rintro s m e positive rfl
  by_contra large
  exact not_isFinite_pack (Int.not_le.mp large) finite

theorem abs_value (s : Sign) (m : ℕ) (e : ℤ) (positive : 0 < m) :
    |value (.finite s m e positive)| = m * 2 ^ e := by
  have size : (0 : ℚ) ≤ m * 2 ^ e := mul_nonneg m.cast_nonneg (zpow_pos (by norm_num) e).le
  cases s with
  | negative => rw [value, factor, neg_one_mul, abs_neg, abs_of_nonneg size]
  | positive => rw [value, factor, one_mul, abs_of_nonneg size]

/-- A finite number is less than the one that would have the next exponent. -/
theorem abs_amount_lt (finite : x.isFinite) : |amount x| < 2 ^ (1024 : ℤ) := by
  obtain ⟨canonical, placed⟩ := place_toModel finite
  have bound := (isFinite_iff x).mp finite
  rw [amount_eq_value finite]
  generalize x.toModel.unpack = u at canonical placed
  cases u with
  | notANumber => cases canonical
  | infinity s => cases canonical
  | zero s =>
      rw [show value (.zero s) = 0 from rfl, abs_zero]
      positivity
  | finite s m e positive =>
      obtain ⟨short, least, full⟩ := canonical
      have exponent : e ≤ 971 := by
        simp only [place, signedMagnitude, hiddenBit] at placed bound short full
        cases s <;> split_ifs at placed <;> simp only [Sign.apply] at placed <;> omega
      have short : (m : ℚ) < 2 ^ (53 : ℤ) := by exact_mod_cast short
      rw [abs_value]
      calc (m : ℚ) * 2 ^ e < 2 ^ (53 : ℤ) * 2 ^ e :=
            mul_lt_mul_of_pos_right short (zpow_pos (by norm_num) e)
        _ = 2 ^ (53 + e) := (zpow_add₀ (by norm_num) _ _).symm
        _ ≤ 2 ^ (1024 : ℤ) := zpow_le_zpow_right₀ (by norm_num) (by omega)

/-- A number that overflows has an exponent past the last one. -/
theorem le_abs_of_overflow {u : UnpackedFloat} (canonical : Canonical u)
    (overflow : ¬ (Float.ofModel (Float.Model.pack u)).isFinite) : 2 ^ (1024 : ℤ) ≤ |value u| := by
  have large : ∃ s m e positive, u = .finite s m e positive ∧ 971 < e := by
    by_contra none
    push Not at none
    have same := unpack_pack canonical none
    refine overflow ?_
    show (Float.Model.pack u).unpack.isFinite = true
    rw [same]
    cases u with
    | notANumber => cases canonical
    | infinity s => cases canonical
    | zero | finite => rfl
  obtain ⟨s, m, e, positive, rfl, large⟩ := large
  obtain ⟨-, -, full⟩ := canonical
  have full : (2 : ℚ) ^ (52 : ℤ) ≤ m := by exact_mod_cast full.resolve_right (by omega)
  rw [abs_value]
  calc (2 : ℚ) ^ (1024 : ℤ) ≤ 2 ^ (52 + e) := zpow_le_zpow_right₀ (by norm_num) (by omega)
    _ = 2 ^ (52 : ℤ) * 2 ^ e := zpow_add₀ (by norm_num) _ _
    _ ≤ m * 2 ^ e := mul_le_mul_of_nonneg_right full (zpow_pos (by norm_num) e).le

theorem roundsTo_pack {q : ℚ} {u : UnpackedFloat} (nearest : Nearest q u) :
    RoundsTo q (Float.ofModel (Float.Model.pack u)) where
  nearest finite y hy := by
    rw [amount_pack nearest.canonical finite]
    exact nearest.least _ (onGrid_amount hy)
  bounded y hy far := by
    by_contra overflow
    -- The number that reaches as far would be nearer than what overflows.
    have larger := (abs_amount_lt hy).trans_le (le_abs_of_overflow nearest.canonical overflow)
    have apart := abs_sub_abs_le_abs_sub (value u) q
    have grid : OnGrid |amount y| := by
      rcases abs_choice (amount y) with same | opposite
      · rw [same]
        exact onGrid_amount hy
      · rw [opposite]
        exact (onGrid_amount hy).neg
    rcases le_total 0 q with positive | negative
    · have least := nearest.least _ grid
      rw [abs_of_nonneg positive] at far apart
      rw [abs_of_nonneg (sub_nonneg.mpr far)] at least
      linarith
    · have least := nearest.least _ grid.neg
      rw [abs_of_nonpos negative] at far apart
      have turned : |-|amount y| - q| = |amount y| + q := by
        rw [abs_of_nonpos (by linarith)]
        ring
      rw [turned] at least
      linarith

theorem roundsTo_add (hx : x.isFinite) (hy : y.isFinite) : RoundsTo (amount x + amount y) (x + y) := by
  rw [amount_eq_value hx, amount_eq_value hy]
  exact roundsTo_pack (nearest_add (place_toModel hx).1 (place_toModel hy).1)

theorem roundsTo_sub (hx : x.isFinite) (hy : y.isFinite) : RoundsTo (amount x - amount y) (x - y) := by
  rw [amount_eq_value hx, amount_eq_value hy]
  exact roundsTo_pack (nearest_sub (place_toModel hx).1 (place_toModel hy).1)

theorem roundsTo_mul (hx : x.isFinite) (hy : y.isFinite) : RoundsTo (amount x * amount y) (x * y) := by
  rw [amount_eq_value hx, amount_eq_value hy]
  exact roundsTo_pack (nearest_mul (place_toModel hx).1 (place_toModel hy).1)

theorem roundsTo_div (hx : x.isFinite) (hy : y.isFinite) (nonzero : amount y ≠ 0) :
    RoundsTo (amount x / amount y) (x / y) := by
  rw [amount_eq_value hy] at nonzero
  rw [amount_eq_value hx, amount_eq_value hy]
  exact roundsTo_pack (nearest_div (place_toModel hx).1 (place_toModel hy).1 nonzero)

/-! ## Results between numbers -/

section Results

variable {q : ℚ} {lower upper : Float}

theorem RoundsTo.le (rounds : RoundsTo q x) (finite : x.isFinite) (hy : y.isFinite)
    (above : q ≤ amount y) : amount x ≤ amount y := by
  by_contra more
  have nearest := rounds.nearest finite y hy
  rw [abs_of_nonneg (sub_nonneg.mpr above), abs_of_nonneg (by linarith)] at nearest
  linarith

theorem RoundsTo.ge (rounds : RoundsTo q x) (finite : x.isFinite) (hy : y.isFinite)
    (below : amount y ≤ q) : amount y ≤ amount x := by
  by_contra less
  have nearest := rounds.nearest finite y hy
  rw [abs_of_nonpos (sub_nonpos.mpr below), abs_of_nonpos (by linarith)] at nearest
  linarith

/-- What lies between two numbers is rounded to a number between them. -/
theorem RoundsTo.between (rounds : RoundsTo q x) (hl : lower.isFinite) (hu : upper.isFinite)
    (above : amount lower ≤ q) (below : q ≤ amount upper) :
    x.isFinite ∧ amount lower ≤ amount x ∧ amount x ≤ amount upper := by
  have finite : x.isFinite := by
    rcases le_total 0 q with positive | negative
    · refine rounds.bounded upper hu ?_
      rw [abs_of_nonneg positive]
      exact below.trans (le_abs_self _)
    · refine rounds.bounded lower hl ?_
      rw [abs_of_nonpos negative]
      exact (neg_le_neg above).trans (neg_le_abs _)
  exact ⟨finite, rounds.ge finite hl above, rounds.le finite hu below⟩

/-- What is itself a number is not changed. -/
theorem RoundsTo.exact (rounds : RoundsTo q x) (hy : y.isFinite) (same : amount y = q) :
    x.isFinite ∧ amount x = q := by
  obtain ⟨finite, above, below⟩ := rounds.between hy hy same.le same.ge
  rw [← same]
  exact ⟨finite, le_antisymm below above⟩

/-- Every amount on the grid is that of a number, unless it is too large. -/
theorem exists_of_onGrid (grid : OnGrid q) (bound : |q| < 2 ^ (1024 : ℤ)) :
    ∃ x : Float, x.isFinite ∧ amount x = q := by
  obtain ⟨k, e, short, fits, is⟩ := grid
  have nearest := nearest_normalize k e .positive
  have exactly : value (UnpackedFloat.normalize Format.binary64 k e .positive) = q := by
    have least := nearest.least q ⟨k, e, short, fits, is⟩
    rw [← is, sub_self, abs_zero] at least
    exact sub_eq_zero.mp (abs_nonpos_iff.mp least)
  have finite : (Float.ofModel (Float.Model.pack
      (UnpackedFloat.normalize Format.binary64 k e .positive))).isFinite := by
    by_contra overflow
    have large := le_abs_of_overflow nearest.canonical overflow
    rw [exactly] at large
    exact absurd bound (not_lt.mpr large)
  exact ⟨_, finite, (amount_pack nearest.canonical finite).trans exactly⟩

end Results

/-! ## Results that are not finite -/

theorem not_isFinite_pack_of {u : UnpackedFloat} (infinite : ¬ u.isFinite) :
    ¬ (Float.ofModel (Float.Model.pack u)).isFinite := by
  show ¬ (Float.Model.pack u).unpack.isFinite
  cases u with
  | notANumber => decide
  | infinity s => cases s <;> decide
  | zero | finite => exact absurd rfl infinite

theorem not_isFinite_mul (infinite : ¬ x.isFinite) : ¬ (x * y).isFinite := by
  have infinite : ¬ x.toModel.unpack.isFinite := infinite
  refine not_isFinite_pack_of ?_
  generalize x.toModel.unpack = a at infinite
  cases a with
  | notANumber => exact nofun
  | infinity s => cases y.toModel.unpack <;> exact nofun
  | zero | finite => exact absurd rfl infinite

theorem not_isFinite_add (infinite : ¬ y.isFinite) : ¬ (x + y).isFinite := by
  have infinite : ¬ y.toModel.unpack.isFinite := infinite
  refine not_isFinite_pack_of ?_
  generalize y.toModel.unpack = b at infinite
  cases b with
  | notANumber => cases x.toModel.unpack <;> exact nofun
  | infinity t =>
      cases x.toModel.unpack with
      | infinity s => cases s <;> cases t <;> exact nofun
      | notANumber | zero | finite => exact nofun
  | zero | finite => exact absurd rfl infinite

/-! ## Order and whole parts -/

/-- The amount of a positive number by its bits. -/
def amountOfBits (bits : ℕ) : ℚ :=
  if bits / hiddenBit = 0 then (bits % hiddenBit : ℕ) * 2 ^ (-1074 : ℤ)
  else (hiddenBit + bits % hiddenBit : ℕ) * 2 ^ ((bits / hiddenBit : ℕ) - 1075 : ℤ)

theorem amount_eq_amountOfBits (x : Float) :
    amount x = (if isNegative x then -1 else 1) * amountOfBits (magnitude x) := by
  rw [amount, amountOfBits]
  simp only [scaled]
  split_ifs <;> simp only [mul_assoc]

theorem amountOfBits_nonneg (bits : ℕ) : 0 ≤ amountOfBits bits := by
  rw [amountOfBits]
  split_ifs <;> exact mul_nonneg (Nat.cast_nonneg _) (zpow_pos (by norm_num) _).le

theorem amountOfBits_mono {bits bits' : ℕ} (le : bits ≤ bits') :
    amountOfBits bits ≤ amountOfBits bits' := by
  have unit (e : ℤ) : (0 : ℚ) < 2 ^ e := zpow_pos (by norm_num) e
  have field : bits / hiddenBit ≤ bits' / hiddenBit := Nat.div_le_div_right le
  rcases field.eq_or_lt with same | less
  · have fraction : bits % hiddenBit ≤ bits' % hiddenBit := by
      simp only [hiddenBit] at *
      omega
    rw [amountOfBits, amountOfBits, same]
    split_ifs
    · exact mul_le_mul_of_nonneg_right (by exact_mod_cast fraction) (unit _).le
    · refine mul_le_mul_of_nonneg_right ?_ (unit _).le
      exact_mod_cast Nat.add_le_add_left fraction _
  · -- The next exponent starts with the amount that the significand before it does not reach.
    have part : bits % hiddenBit < hiddenBit := Nat.mod_lt _ (by decide)
    have next : amountOfBits bits ≤ hiddenBit * 2 ^ ((bits / hiddenBit : ℕ) - 1074 : ℤ) := by
      rw [amountOfBits]
      split_ifs with none
      · rw [none]
        exact mul_le_mul_of_nonneg_right (by exact_mod_cast part.le) (unit _).le
      · have doubled : (2 : ℚ) ^ ((bits / hiddenBit : ℕ) - 1074 : ℤ) =
            2 * 2 ^ ((bits / hiddenBit : ℕ) - 1075 : ℤ) := by
          rw [← zpow_one_add₀ (by norm_num)]
          congr 1
          ring
        have bound : ((hiddenBit + bits % hiddenBit : ℕ) : ℚ) ≤ hiddenBit * 2 := by
          exact_mod_cast (by omega : hiddenBit + bits % hiddenBit ≤ hiddenBit * 2)
        rw [doubled, ← mul_assoc]
        exact mul_le_mul_of_nonneg_right bound (unit _).le
    have exponent : ((bits / hiddenBit : ℕ) : ℤ) + 1 ≤ (bits' / hiddenBit : ℕ) := by
      exact_mod_cast less
    calc amountOfBits bits ≤ hiddenBit * 2 ^ ((bits / hiddenBit : ℕ) - 1074 : ℤ) := next
      _ ≤ hiddenBit * 2 ^ ((bits' / hiddenBit : ℕ) - 1075 : ℤ) :=
          mul_le_mul_of_nonneg_left (zpow_le_zpow_right₀ (by norm_num) (by linarith))
            (Nat.cast_nonneg _)
      _ ≤ (hiddenBit + bits' % hiddenBit : ℕ) * 2 ^ ((bits' / hiddenBit : ℕ) - 1075 : ℤ) :=
          mul_le_mul_of_nonneg_right (by exact_mod_cast Nat.le_add_right _ _) (unit _).le
      _ = amountOfBits bits' := by
          rw [amountOfBits, if_neg (Nat.zero_lt_of_lt less).ne']

theorem amount_le_of_signedMagnitude (le : signedMagnitude x ≤ signedMagnitude y) :
    amount x ≤ amount y := by
  have zero : amountOfBits 0 = 0 := by norm_num [amountOfBits]
  have positive := amountOfBits_nonneg (magnitude x)
  have positive' := amountOfBits_nonneg (magnitude y)
  rw [amount_eq_amountOfBits, amount_eq_amountOfBits]
  rw [signedMagnitude, signedMagnitude] at le
  cases negative : isNegative x <;> cases negative' : isNegative y <;>
    simp only [negative, negative', if_true, Bool.false_eq_true, if_false] at le ⊢
  · linarith [amountOfBits_mono (by omega : magnitude x ≤ magnitude y)]
  · rw [show magnitude x = 0 by omega, show magnitude y = 0 by omega, zero]
    norm_num
  · linarith
  · linarith [amountOfBits_mono (by omega : magnitude y ≤ magnitude x)]

/-- The total order is one of amounts. -/
theorem amount_le_of_rank (le : rank x ≤ rank y) : amount x ≤ amount y := by
  refine amount_le_of_signedMagnitude ?_
  rw [rank, rank] at le
  rw [signedMagnitude, signedMagnitude]
  split_ifs at * <;> omega

theorem amount_le_of_le (hx : x.isFinite) (hy : y.isFinite) (le : x ≤ y) : amount x ≤ amount y :=
  amount_le_of_signedMagnitude ((le_iff hx hy).mp le)

/-- The signed significand of a number. -/
def signedSignificand (x : Float) : ℤ :=
  if (scaled x).negative then -((scaled x).significand : ℤ) else (scaled x).significand

theorem amount_eq_signed (x : Float) :
    amount x = signedSignificand x * 2 ^ (scaled x).exponent := by
  rw [amount, signedSignificand]
  split_ifs <;> push_cast <;> ring

/-- Below the least whole unit, an integer number of units is divided. -/
theorem floor_scaled (n : ℤ) (e : ℤ) :
    ⌊(n : ℚ) * 2 ^ e⌋ = if 0 ≤ e then n * 2 ^ e.toNat else n / 2 ^ (-e).toNat := by
  split_ifs with whole
  · obtain ⟨k, rfl⟩ := Int.eq_ofNat_of_zero_le whole
    have same : (n : ℚ) * 2 ^ (k : ℤ) = ((n * 2 ^ k : ℤ) : ℚ) := by push_cast; rfl
    rw [same, Int.floor_intCast, Int.toNat_natCast]
  · obtain ⟨k, below⟩ := Int.eq_ofNat_of_zero_le (Int.neg_nonneg_of_nonpos (Int.not_le.mp whole).le)
    obtain rfl : e = -k := by omega
    have same : (n : ℚ) * 2 ^ (-k : ℤ) = n / ((2 ^ k : ℕ) : ℚ) := by
      rw [zpow_neg, zpow_natCast, div_eq_mul_inv]
      push_cast
      rfl
    rw [same, Rat.floor_intCast_div_natCast, neg_neg, Int.toNat_natCast]
    push_cast
    rfl

theorem floor_eq (x : Float) : floor x = ⌊amount x⌋ := by
  rw [amount_eq_signed, floor_scaled, floor]
  simp only [Nat.one_shiftLeft, signedSignificand]
  push_cast
  rfl

theorem ceil_eq (x : Float) : ceil x = ⌈amount x⌉ := by
  rw [amount_eq_signed, ← neg_neg (_ * _), Int.ceil_neg, ← neg_mul, ← Int.cast_neg, floor_scaled, ceil]
  simp only [Nat.one_shiftLeft, signedSignificand]
  have opposed : (if (scaled x).negative = true then ((scaled x).significand : ℤ)
      else -((scaled x).significand : ℤ)) = -(if (scaled x).negative = true then
        -((scaled x).significand : ℤ) else (scaled x).significand) := by
    split_ifs <;> ring
  rw [opposed]
  push_cast
  split_ifs <;> rfl

end Rollup.Binary64
