import Rollup.Proofs.Binary64.Pattern

/-! # Rounding to the nearest amount

The grid has all amounts whose significand has 53 bits, down to the least unit and without end upwards.
What a computation rounds to is the amount on the grid that is nearest to the exact one, whether the
significand is cut, has a quotient's remainder behind it or carries into one more bit.
-/

namespace Rollup.Binary64

open Float.Model Float.Model.UnpackedFloat

def OnGrid (y : ℚ) : Prop := ∃ k e : ℤ, |k| < 2 ^ 53 ∧ -1074 ≤ e ∧ y = k * 2 ^ e

theorem OnGrid.neg {y : ℚ} (grid : OnGrid y) : OnGrid (-y) := by
  obtain ⟨k, e, short, fits, rfl⟩ := grid
  exact ⟨-k, e, by rwa [abs_neg], fits, by push_cast; ring⟩

/-- What is within half a unit of an amount is as near as any amount on the grid, as the grid is no
finer than the unit there. -/
theorem nearest_of_half {q : ℚ} {r : ℕ} {t : ℤ} (close : |r * 2 ^ t - q| ≤ 2 ^ t / 2)
    (coarse : 2 ^ (52 + t) ≤ q ∨ t = -1074) {y : ℚ} (grid : OnGrid y) :
    |r * 2 ^ t - q| ≤ |y - q| := by
  obtain ⟨k, e, short, fits, rfl⟩ := grid
  have unit : (0 : ℚ) < 2 ^ t := zpow_pos (by norm_num) t
  -- A multiple of the unit is the same one or at least a unit away.
  have multiple (j : ℤ) : |r * 2 ^ t - q| ≤ |j * 2 ^ t - q| := by
    by_cases same : j = r
    · rw [same, Int.cast_natCast]
    · have apart : (1 : ℚ) ≤ |(j : ℚ) - r| := by
        have : (1 : ℤ) ≤ |j - (r : ℤ)| := Int.one_le_abs (sub_ne_zero.mpr same)
        exact_mod_cast this
      have away : 2 ^ t ≤ |j * 2 ^ t - r * (2 : ℚ) ^ t| := by
        rw [← sub_mul, abs_mul, abs_of_pos unit]
        exact le_mul_of_one_le_left unit.le apart
      have split := abs_sub_le ((j : ℚ) * 2 ^ t) q (r * 2 ^ t)
      rw [abs_sub_comm q] at split
      linarith
  by_cases finer : t ≤ e
  · have whole : (k : ℚ) * 2 ^ e = ((k * 2 ^ (e - t).toNat : ℤ) : ℚ) * 2 ^ t := by
      have shift : (2 : ℚ) ^ e = 2 ^ (e - t).toNat * 2 ^ t := by
        rw [← zpow_natCast, ← zpow_add₀ (by norm_num), Int.toNat_of_nonneg (by omega)]
        congr 1
        omega
      rw [shift]
      push_cast
      ring
    rw [whole]
    exact multiple _
  · -- A finer unit is one of smaller amounts, which are below the least multiple with all its bits.
    have large : (2 : ℚ) ^ (52 + t) ≤ q := coarse.resolve_right (by omega)
    have below : (k : ℚ) * 2 ^ e ≤ 2 ^ (52 + t) := by
      have bits : (k : ℚ) ≤ 2 ^ (53 : ℤ) := by
        have : k ≤ 2 ^ 53 := (le_abs_self k).trans short.le
        exact_mod_cast this
      calc (k : ℚ) * 2 ^ e ≤ 2 ^ (53 : ℤ) * 2 ^ e :=
            mul_le_mul_of_nonneg_right bits (zpow_pos (by norm_num) e).le
        _ = 2 ^ (53 + e) := (zpow_add₀ (by norm_num) _ _).symm
        _ ≤ 2 ^ (52 + t) := zpow_le_zpow_right₀ (by norm_num) (by omega)
    have least : (((2 ^ 52 : ℤ) : ℚ)) * 2 ^ t = 2 ^ (52 + t) := by
      rw [zpow_add₀ (by norm_num)]
      norm_num
    have nearer := multiple (2 ^ 52)
    rw [least] at nearer
    refine nearer.trans ?_
    rw [abs_of_nonpos (sub_nonpos.mpr large), abs_of_nonpos (sub_nonpos.mpr (below.trans large))]
    linarith

/-! ## Significands with two more bits -/

/-- What an accuracy says of the part of a unit that is cut off. -/
def Tells : Accuracy → ℚ → Prop
  | .exact, rest => rest = 0
  | .inexact .lt, rest => 0 < rest ∧ rest < 1 / 2
  | .inexact .eq, rest => rest = 1 / 2
  | .inexact .gt, rest => 1 / 2 < rest ∧ rest < 1

/-- What is left of a number, next to its whole units, is as the two bits say. -/
def Describes (em : ExtendedMantissa) (v : ℚ) : Prop := Tells em.accuracy (v - em.mantissa)

theorem Tells.bounds {accuracy : Accuracy} {rest : ℚ} (h : Tells accuracy rest) :
    0 ≤ rest ∧ rest < 1 := by
  match accuracy, h with
  | .exact, h => constructor <;> linarith [show rest = 0 from h]
  | .inexact .lt, ⟨low, high⟩ => constructor <;> linarith
  | .inexact .eq, h => constructor <;> linarith [show rest = 1 / 2 from h]
  | .inexact .gt, ⟨low, high⟩ => constructor <;> linarith

theorem describes_ofMantissaAndAccuracy {m : ℕ} {accuracy : Accuracy} {v : ℚ}
    (h : Tells accuracy (v - m)) :
    Describes (ExtendedMantissa.ofMantissaAndAccuracy m accuracy) v := by
  match accuracy with
  | .exact | .inexact .lt | .inexact .eq | .inexact .gt => exact h

theorem Describes.shiftRightOne {em : ExtendedMantissa} {v : ℚ} (h : Describes em v) :
    Describes em.shiftRightOne (v / 2) := by
  obtain ⟨m, round, sticky⟩ := em
  rcases Nat.even_or_odd' m with ⟨half, rfl | rfl⟩
  · have shifted : ExtendedMantissa.shiftRightOne ⟨2 * half, round, sticky⟩ =
        ⟨half, false, round || sticky⟩ := by
      simp [ExtendedMantissa.shiftRightOne]
    rw [shifted]
    cases round <;> cases sticky <;>
      simp only [Describes, ExtendedMantissa.accuracy, Tells, Bool.or_self, Bool.or_false, Bool.or_true,
        Nat.cast_mul, Nat.cast_ofNat] at h ⊢
    · linarith
    · constructor <;> linarith
    · constructor <;> linarith
    · constructor <;> linarith
  · have shifted : ExtendedMantissa.shiftRightOne ⟨2 * half + 1, round, sticky⟩ =
        ⟨half, true, round || sticky⟩ := by
      simp [ExtendedMantissa.shiftRightOne, Nat.add_mod]
      omega
    rw [shifted]
    cases round <;> cases sticky <;>
      simp only [Describes, ExtendedMantissa.accuracy, Tells, Bool.or_self, Bool.or_false, Bool.or_true,
        Nat.cast_mul, Nat.cast_ofNat, Nat.cast_add, Nat.cast_one] at h ⊢
    · linarith
    · constructor <;> linarith
    · constructor <;> linarith
    · constructor <;> linarith

theorem Describes.shiftRight {em : ExtendedMantissa} {v : ℚ} (h : Describes em v) (places : ℕ) :
    Describes (em >>> places) (v / 2 ^ places) := by
  induction places with
  | zero =>
      rw [pow_zero, div_one]
      exact h
  | succ places ih =>
      have step : em >>> (places + 1) = (em >>> places).shiftRightOne := rfl
      rw [step, pow_succ, ← div_div]
      exact ih.shiftRightOne

/-- Rounding goes by half a unit at most. -/
theorem Describes.rounded {em : ExtendedMantissa} {v : ℚ} (h : Describes em v) :
    |(em.roundedMantissa : ℚ) - v| ≤ 1 / 2 := by
  obtain ⟨m, round, sticky⟩ := em
  rw [abs_le]
  cases round <;> cases sticky <;>
    simp only [Describes, ExtendedMantissa.accuracy, Tells, ExtendedMantissa.roundedMantissa,
      Accuracy.roundToNearestEven, Nat.cast_add, Nat.cast_one] at h ⊢
  · constructor <;> linarith
  · constructor <;> linarith
  · have even : ((m % 2 : ℕ) : ℚ) ≤ 1 := by
      exact_mod_cast Nat.lt_succ_iff.mp (Nat.mod_lt m two_pos)
    constructor <;> linarith [Nat.cast_nonneg (α := ℚ) (m % 2)]
  · constructor <;> linarith

/-! ## Rounding to the grid -/

/-- The sign as a factor. -/
def factor : Sign → ℚ
  | .negative => -1
  | .positive => 1

/-- The exact amount of an unpacked number. -/
def value : UnpackedFloat → ℚ
  | .finite s m e _ => factor s * (m * 2 ^ e)
  | _ => 0

/-- The exponent to which a significand and an exponent are rounded: all bits are kept down to the
53rd, and none below the least unit. -/
def unitExponent (m : ℕ) (e : ℤ) : ℤ := Max.max (m.log2 + e - 52) (-1074)

theorem targetExponent_eq (m : ℕ) (e : ℤ) :
    Format.binary64.targetExponent (totalExponent m e) = unitExponent m e := by
  simp only [unitExponent, Format.targetExponent, totalExponent, Format.mantissaBits,
    Format.minExponent]
  norm_num
  omega

theorem shiftToTargetExponent_eq (m : ℕ) (e : ℤ) (accuracy : Accuracy) :
    shiftToTargetExponent Format.binary64 m e accuracy =
      (ExtendedMantissa.ofMantissaAndAccuracy m accuracy >>> (unitExponent m e - e).toNat,
        e + (unitExponent m e - e).toNat) := by
  rw [shiftToTargetExponent, targetExponent_eq]
  rfl

/-- A significand of at most 53 bits, or one more than these can hold, is not rounded again. -/
theorem exact_shift {r : ℕ} {t : ℤ} (short : r ≤ 2 ^ 53) (fits : -1074 ≤ t) :
    shiftToTargetExponent Format.binary64 r t .exact =
      if r < 2 ^ 53 then (⟨r, false, false⟩, t) else (⟨2 ^ 52, false, false⟩, t + 1) := by
  rw [shiftToTargetExponent_eq]
  split_ifs with below
  · have bits : r.log2 ≤ 52 := by
      by_cases zero : r = 0
      · subst zero
        decide
      · exact Nat.lt_succ_iff.mp ((Nat.log2_lt zero).mpr below)
    have none : (unitExponent r t - t).toNat = 0 := by
      rw [unitExponent]
      omega
    rw [none]
    exact Prod.ext rfl (add_zero t)
  · obtain rfl : r = 2 ^ 53 := by omega
    have one : (unitExponent (2 ^ 53) t - t).toNat = 1 := by
      rw [unitExponent, Nat.log2_two_pow]
      omega
    rw [one]
    rfl

/-- An unpacked number that is nearest to an amount, among all amounts on the grid. -/
structure Nearest (q : ℚ) (u : UnpackedFloat) : Prop where
  canonical : Canonical u
  least : ∀ y, OnGrid y → |value u - q| ≤ |y - q|

/-- The significand that a number is rounded to, before a carry. -/
structure RoundsWithin (v : ℚ) (e : ℤ) (r : ℕ) (t : ℤ) : Prop where
  close : |(r : ℚ) * 2 ^ t - v * 2 ^ e| ≤ 2 ^ t / 2
  short : r ≤ 2 ^ 53
  fits : -1074 ≤ t
  full : 2 ^ 52 ≤ r ∨ t = -1074
  coarse : (2 : ℚ) ^ (52 + t) ≤ v * 2 ^ e ∨ t = -1074

theorem scaled_lt {m places : ℕ} {v : ℚ} (below : v < m + 1) (enough : m.log2 ≤ 52 + places) :
    v / 2 ^ places < 2 ^ 53 := by
  have bound : m + 1 ≤ 2 ^ (53 + places) :=
    Nat.lt_log2_self.trans_le (Nat.pow_le_pow_right two_pos (by omega))
  rw [div_lt_iff₀ (pow_pos two_pos places), ← pow_add]
  calc v < ((m + 1 : ℕ) : ℚ) := by exact_mod_cast below
    _ ≤ ((2 ^ (53 + places) : ℕ) : ℚ) := by exact_mod_cast bound
    _ = 2 ^ (53 + places) := by push_cast; rfl

theorem le_scaled {m places : ℕ} {v : ℚ} (atLeast : m ≤ v) (all : 52 + places = m.log2) :
    2 ^ 52 ≤ v / 2 ^ places := by
  have bound : 2 ^ (52 + places) ≤ m := by
    rw [all]
    exact Nat.log2_self_le (by rintro rfl; simp at all)
  rw [le_div_iff₀ (pow_pos two_pos places), ← pow_add]
  calc (2 : ℚ) ^ (52 + places) = ((2 ^ (52 + places) : ℕ) : ℚ) := by push_cast; rfl
    _ ≤ (m : ℚ) := by exact_mod_cast bound
    _ ≤ v := atLeast

theorem roundsWithin {m : ℕ} {e : ℤ} {accuracy : Accuracy} {v : ℚ}
    (bits : 52 ≤ m.log2 ∨ e ≤ -1074) (tells : Tells accuracy (v - m)) :
    let shifted := shiftToTargetExponent Format.binary64 m e accuracy
    RoundsWithin v e shifted.1.roundedMantissa shifted.2 := by
  rw [shiftToTargetExponent_eq]
  obtain ⟨atLeast, below⟩ := tells.bounds
  have forward : e ≤ unitExponent m e := by
    rw [unitExponent]
    omega
  obtain ⟨places, same⟩ := Int.eq_ofNat_of_zero_le (sub_nonneg.mpr forward)
  have reached : e + places = unitExponent m e := by omega
  have unit : (0 : ℚ) < 2 ^ (e + places) := zpow_pos (by norm_num) _
  have scaled : v * 2 ^ e = v / 2 ^ places * 2 ^ (e + places) := by
    rw [zpow_add₀ (by norm_num), zpow_natCast]
    field_simp
  rw [same, Int.toNat_natCast]
  show RoundsWithin v e
    (ExtendedMantissa.ofMantissaAndAccuracy m accuracy >>> places).roundedMantissa (e + places)
  have rounded := ((describes_ofMantissaAndAccuracy tells).shiftRight places).rounded
  obtain ⟨low, high⟩ := abs_le.mp rounded
  generalize (ExtendedMantissa.ofMantissaAndAccuracy m accuracy >>> places).roundedMantissa = r at *
  rw [unitExponent] at reached
  have short : v / 2 ^ places < 2 ^ 53 := scaled_lt (m := m) (by linarith) (by omega)
  have full : 2 ^ 52 ≤ v / 2 ^ places ∨ e + places = -1074 := by
    by_cases least : e + places = -1074
    · exact .inr least
    · exact .inl (le_scaled (m := m) (by linarith) (by omega))
  refine ⟨?_, ?_, ?_, ?_, ?_⟩
  · rw [scaled, ← sub_mul, abs_mul, abs_of_pos unit]
    linarith [mul_le_mul_of_nonneg_right rounded unit.le]
  · have : (r : ℚ) < ((2 ^ 53 + 1 : ℕ) : ℚ) := by
      push_cast
      linarith
    exact Nat.lt_succ_iff.mp (by exact_mod_cast this)
  · omega
  · refine full.imp_left fun full => ?_
    have : ((2 ^ 52 : ℕ) : ℚ) < ((r + 1 : ℕ) : ℚ) := by
      push_cast
      linarith
    exact Nat.lt_succ_iff.mp (by exact_mod_cast this)
  · refine full.imp_left fun full => ?_
    rw [scaled, zpow_add₀ (by norm_num)]
    exact mul_le_mul_of_nonneg_right full unit.le

theorem value_roundWithAccuracy (s : Sign) {m : ℕ} {e t : ℤ} {accuracy : Accuracy}
    {em : ExtendedMantissa} {v : ℚ}
    (shifted : shiftToTargetExponent Format.binary64 m e accuracy = (em, t))
    (rounds : RoundsWithin v e em.roundedMantissa t) :
    Canonical (roundWithAccuracy Format.binary64 s m e accuracy) ∧
      value (roundWithAccuracy Format.binary64 s m e accuracy) =
        factor s * (em.roundedMantissa * 2 ^ t) := by
  obtain ⟨-, short, fits, full, -⟩ := rounds
  have again := exact_shift short fits
  rw [roundWithAccuracy, shifted]
  dsimp only
  rw [again]
  generalize em.roundedMantissa = r at *
  by_cases below : r < 2 ^ 53
  · rw [if_pos below]
    dsimp only
    split_ifs with zero
    · subst zero
      exact ⟨trivial, by simp [value]⟩
    · exact ⟨⟨below, fits, full⟩, rfl⟩
  · obtain rfl : r = 2 ^ 53 := by omega
    rw [if_neg below]
    dsimp only
    rw [dif_neg (by decide)]
    refine ⟨⟨by decide, by omega, .inl (by decide)⟩, ?_⟩
    rw [value, zpow_add_one₀ (by norm_num)]
    push_cast
    ring

/-- Rounding gives the nearest amount on the grid. -/
theorem nearest_roundWithAccuracy (s : Sign) {m : ℕ} {e : ℤ} {accuracy : Accuracy} {v : ℚ}
    (bits : 52 ≤ m.log2 ∨ e ≤ -1074) (tells : Tells accuracy (v - m)) :
    Nearest (factor s * (v * 2 ^ e)) (roundWithAccuracy Format.binary64 s m e accuracy) := by
  have rounds := roundsWithin bits tells
  generalize shifted : shiftToTargetExponent Format.binary64 m e accuracy = pair at rounds
  obtain ⟨em, t⟩ := pair
  obtain ⟨canonical, exactly⟩ := value_roundWithAccuracy s shifted rounds
  refine ⟨canonical, fun y grid => ?_⟩
  rw [exactly]
  cases s with
  | positive =>
      simp only [factor, one_mul]
      exact nearest_of_half rounds.close rounds.coarse grid
  | negative =>
      have nearest := nearest_of_half rounds.close rounds.coarse grid.neg
      have turned : |-y - v * 2 ^ e| = |y - -(v * 2 ^ e)| := by
        rw [abs_sub_comm, sub_neg_eq_add, sub_neg_eq_add, add_comm]
      simp only [factor, neg_one_mul]
      rw [neg_sub_neg, abs_sub_comm, ← turned]
      exact nearest

/-! ## Operations -/

theorem nearest_self {u : UnpackedFloat} (canonical : Canonical u) : Nearest (value u) u where
  canonical := canonical
  least y _ := by
    rw [sub_self, abs_zero]
    exact abs_nonneg _

theorem log2_shiftLeft {m : ℕ} (positive : m ≠ 0) (places : ℕ) :
    (m <<< places).log2 = m.log2 + places := by
  have power : 0 < 2 ^ places := Nat.two_pow_pos places
  rw [Nat.shiftLeft_eq, Nat.log2_eq_iff (Nat.mul_ne_zero positive power.ne')]
  constructor
  · rw [Nat.pow_add]
    exact Nat.mul_le_mul_right _ (Nat.log2_self_le positive)
  · rw [Nat.add_right_comm, Nat.pow_add]
    exact Nat.mul_lt_mul_of_pos_right Nat.lt_log2_self power

theorem shiftLeft_mul (m places : ℕ) (e : ℤ) :
    ((m <<< places : ℕ) : ℚ) * 2 ^ (e - places) = m * 2 ^ e := by
  rw [Nat.shiftLeft_eq, zpow_sub₀ (by norm_num), zpow_natCast]
  push_cast
  field_simp

theorem nearest_round (s : Sign) {m : ℕ} (positive : m ≠ 0) (e : ℤ) :
    Nearest (factor s * (m * 2 ^ e)) (round Format.binary64 s m e) := by
  rw [UnpackedFloat.round, targetExponent_eq]
  simp only [decreaseExponent]
  generalize moved : (e - unitExponent m e).toNat = places
  have bits : 52 ≤ (m <<< places).log2 ∨ e - places ≤ -1074 := by
    rw [log2_shiftLeft positive]
    rw [unitExponent] at moved
    omega
  rw [← shiftLeft_mul m places e]
  exact nearest_roundWithAccuracy s bits (sub_self _)

theorem nearest_normalize (n e : ℤ) (zeroSign : Sign) :
    Nearest (n * 2 ^ e) (normalize Format.binary64 n e zeroSign) := by
  rw [UnpackedFloat.normalize]
  rcases Int.lt_trichotomy n 0 with negative | rfl | positive
  · rw [Int.compare_eq_lt.mpr negative]
    have same : (n : ℚ) * 2 ^ e = factor .negative * (((-n).toNat : ℕ) * 2 ^ e) := by
      have : ((-n).toNat : ℚ) = -n := by exact_mod_cast Int.toNat_of_nonneg (by omega)
      rw [this, factor]
      ring
    rw [same]
    exact nearest_round .negative (by omega) e
  · rw [Int.compare_eq_eq.mpr rfl, Int.cast_zero, zero_mul]
    exact nearest_self (u := .zero zeroSign) trivial
  · rw [Int.compare_eq_gt.mpr positive]
    have same : (n : ℚ) * 2 ^ e = factor .positive * ((n.toNat : ℕ) * 2 ^ e) := by
      have : (n.toNat : ℚ) = n := by exact_mod_cast Int.toNat_of_nonneg positive.le
      rw [this, factor, one_mul]
    rw [same]
    exact nearest_round .positive (by omega) e

theorem apply_eq (s : Sign) (n : ℕ) : ((s.apply n : ℤ) : ℚ) = factor s * n := by
  cases s <;> simp [Sign.apply, factor]

theorem nearest_zero (s : Sign) : Nearest 0 (.zero s) := nearest_self (u := .zero s) trivial

variable {a b : UnpackedFloat}

theorem nearest_add (ha : Canonical a) (hb : Canonical b) :
    Nearest (value a + value b) (UnpackedFloat.add Format.binary64 a b) := by
  cases a with
  | notANumber => cases ha
  | infinity s => cases ha
  | zero s =>
      have none : value (.zero s) = 0 := rfl
      rw [none, zero_add]
      cases b with
      | notANumber => cases hb
      | infinity t => cases hb
      | zero t => cases s <;> cases t <;> exact nearest_zero _
      | finite t n f positive => exact nearest_self hb
  | finite s m e positive =>
      cases b with
      | notANumber => cases hb
      | infinity t => cases hb
      | zero t =>
          have none : value (.zero t) = 0 := rfl
          rw [none, add_zero]
          exact nearest_self ha
      | finite t n f positive' =>
          rw [UnpackedFloat.add]
          simp only [decreaseExponent]
          generalize smaller : Min.min e f = least
          generalize moved : (e - least).toNat = places
          generalize moved' : (f - least).toNat = places'
          have first := shiftLeft_mul m places e
          have second := shiftLeft_mul n places' f
          rw [show e - places = least by omega] at first
          rw [show f - places' = least by omega] at second
          have sum : value (.finite s m e positive) + value (.finite t n f positive') =
              (s.apply (m <<< places : ℕ) + t.apply (n <<< places' : ℕ) : ℤ) * 2 ^ least := by
            rw [value, value, ← first, ← second, Int.cast_add, apply_eq, apply_eq]
            ring
          rw [sum]
          exact nearest_normalize _ _ _

theorem factor_neg (s : Sign) : factor (-s) = -factor s := by
  cases s <;> rfl

theorem apply_neg (s : Sign) (n : ℤ) : (-s).apply n = -s.apply n := by
  cases s with
  | negative => exact (neg_neg n).symm
  | positive => rfl

theorem canonical_neg (canonical : Canonical a) : Canonical a.neg := by
  cases a <;> exact canonical

theorem value_neg : value a.neg = -value a := by
  cases a with
  | finite s m e positive => rw [UnpackedFloat.neg, value, value, factor_neg, neg_mul]
  | _ => exact neg_zero.symm

/-- Subtracting is adding the opposite. -/
theorem sub_eq_add_opposite : UnpackedFloat.sub Format.binary64 a b =
    UnpackedFloat.add Format.binary64 a b.neg := by
  cases a <;> cases b <;> try rfl
  next s m e _ t n f _ =>
    rw [UnpackedFloat.sub, UnpackedFloat.neg, UnpackedFloat.add]
    simp only [apply_neg, Int.sub_eq_add_neg]

theorem nearest_sub (ha : Canonical a) (hb : Canonical b) :
    Nearest (value a - value b) (UnpackedFloat.sub Format.binary64 a b) := by
  rw [sub_eq_add_opposite, sub_eq_add_neg, ← value_neg]
  exact nearest_add ha (canonical_neg hb)

theorem factor_eq (s : Sign) : factor s = (s.apply 1 : ℤ) := by
  cases s <;> simp [factor, Sign.apply]

theorem factor_mul (s t : Sign) : factor (s * t) = factor s * factor t := by
  have same : (s * t).apply 1 = s.apply 1 * t.apply 1 := by cases s <;> cases t <;> rfl
  rw [factor_eq, factor_eq, factor_eq, same, Int.cast_mul]

theorem factor_div (s t : Sign) : factor (s / t) = factor s / factor t := by
  have same : s / t = s * t := by cases s <;> cases t <;> rfl
  have square : factor t * factor t = 1 := by cases t <;> norm_num [factor]
  rw [same, factor_mul, eq_div_iff (left_ne_zero_of_mul_eq_one square), mul_assoc, square, mul_one]

theorem nearest_mul (ha : Canonical a) (hb : Canonical b) :
    Nearest (value a * value b) (UnpackedFloat.mul Format.binary64 a b) := by
  cases a with
  | notANumber => cases ha
  | infinity s => cases ha
  | zero s =>
      have none : value (.zero s) = 0 := rfl
      rw [none, zero_mul]
      cases b with
      | notANumber => cases hb
      | infinity t => cases hb
      | zero t => exact nearest_zero _
      | finite t n f positive => exact nearest_zero _
  | finite s m e positive =>
      cases b with
      | notANumber => cases hb
      | infinity t => cases hb
      | zero t =>
          have none : value (.zero t) = 0 := rfl
          rw [none, mul_zero]
          exact nearest_zero _
      | finite t n f positive' =>
          have bits : 52 ≤ (m * n).log2 ∨ e + f ≤ -1074 := by
            obtain ⟨-, -, full⟩ := ha
            obtain ⟨-, -, full'⟩ := hb
            rw [Nat.le_log2 (Nat.mul_ne_zero positive.ne' positive'.ne')]
            rcases full, full' with ⟨full | least, full' | least'⟩
            · exact .inl (full.trans (Nat.le_mul_of_pos_right m positive'))
            · exact .inl (full.trans (Nat.le_mul_of_pos_right m positive'))
            · exact .inl (full'.trans (Nat.le_mul_of_pos_left n positive))
            · exact .inr (by omega)
          have product : value (.finite s m e positive) * value (.finite t n f positive') =
              factor (s * t) * ((m * n : ℕ) * 2 ^ (e + f)) := by
            rw [value, value, factor_mul, zpow_add₀ (by norm_num), Nat.cast_mul]
            ring
          rw [product]
          exact nearest_roundWithAccuracy _ bits (sub_self _)

theorem tells_accuracyOfFraction {num den : ℕ} (below : num < den) :
    Tells (accuracyOfFraction num den) (num / den) := by
  have positive : (0 : ℚ) < den := by exact_mod_cast (Nat.zero_le num).trans_lt below
  have below' : (num : ℚ) < den := by exact_mod_cast below
  rw [accuracyOfFraction]
  split_ifs with zero
  · rw [zero, Nat.cast_zero, zero_div]
    rfl
  · have some : (0 : ℚ) < num := by exact_mod_cast Nat.pos_of_ne_zero zero
    rcases Nat.lt_trichotomy (2 * num) den with less | same | more
    · rw [Nat.compare_eq_lt.mpr less]
      have : (2 : ℚ) * num < den := by exact_mod_cast less
      exact ⟨div_pos some positive, by rw [div_lt_div_iff₀ positive two_pos]; linarith⟩
    · rw [Nat.compare_eq_eq.mpr same]
      have : (2 : ℚ) * num = den := by exact_mod_cast same
      show (num : ℚ) / den = 1 / 2
      rw [div_eq_div_iff positive.ne' two_ne_zero]
      linarith
    · rw [Nat.compare_eq_gt.mpr more]
      have : (den : ℚ) < 2 * num := by exact_mod_cast more
      exact ⟨by rw [div_lt_div_iff₀ two_pos positive]; linarith, (div_lt_one positive).mpr below'⟩

/-- A quotient of a significand that was shifted far enough has 53 bits. -/
theorem le_log2_quotient {m n places : ℕ} (positive : 0 < m) (positive' : 0 < n)
    (high : 53 + n.log2 ≤ m.log2 + places) : 52 ≤ (m <<< places / n).log2 := by
  have large : 2 ^ 52 * n ≤ m <<< places := by
    calc 2 ^ 52 * n ≤ 2 ^ 52 * 2 ^ (n.log2 + 1) := Nat.mul_le_mul_left _ Nat.lt_log2_self.le
      _ = 2 ^ (53 + n.log2) := by rw [← Nat.pow_add]; congr 1; omega
      _ ≤ 2 ^ (m.log2 + places) := Nat.pow_le_pow_right two_pos high
      _ = 2 ^ m.log2 * 2 ^ places := Nat.pow_add _ _ _
      _ ≤ m * 2 ^ places := Nat.mul_le_mul_right _ (Nat.log2_self_le positive.ne')
      _ = m <<< places := (Nat.shiftLeft_eq _ _).symm
  have all := (Nat.le_div_iff_mul_le positive').mpr large
  exact (Nat.le_log2 (by omega)).mpr all

theorem tells_remainder {k n : ℕ} (positive : 0 < n) :
    Tells (accuracyOfFraction (k % n) n) ((k : ℚ) / n - (k / n : ℕ)) := by
  have divides : (n : ℚ) ≠ 0 := by exact_mod_cast positive.ne'
  have whole : (k : ℚ) = n * (k / n : ℕ) + (k % n : ℕ) := by exact_mod_cast (Nat.div_add_mod k n).symm
  have rest : (k : ℚ) / n - (k / n : ℕ) = (k % n : ℕ) / n := by
    rw [eq_div_iff divides, sub_mul, div_mul_cancel₀ _ divides, sub_eq_iff_eq_add, mul_comm, add_comm]
    exact whole
  rw [rest]
  exact tells_accuracyOfFraction (Nat.mod_lt k positive)

theorem nearest_div (ha : Canonical a) (hb : Canonical b) (nonzero : value b ≠ 0) :
    Nearest (value a / value b) (UnpackedFloat.div Format.binary64 a b) := by
  cases b with
  | notANumber => cases hb
  | infinity t => cases hb
  | zero t => exact absurd rfl nonzero
  | finite t n f positive' =>
      cases a with
      | notANumber => cases ha
      | infinity s => cases ha
      | zero s =>
          have none : value (.zero s) = 0 := rfl
          rw [none, zero_div]
          exact nearest_zero _
      | finite s m e positive =>
          rw [UnpackedFloat.div, divCore]
          have target : Format.binary64.targetExponent (totalExponent m e - totalExponent n f) =
              Max.max ((m.log2 : ℤ) + e - (n.log2 + f) - 53) (-1074) := by
            simp only [Format.targetExponent, totalExponent, Format.mantissaBits, Format.minExponent]
            norm_num
            omega
          simp only [target]
          generalize lowered : Min.min (e - f) (Max.max ((m.log2 : ℤ) + e - (n.log2 + f) - 53) (-1074)) =
            least
          generalize moved : (e - f - least).toNat = places
          have bits : 52 ≤ (m <<< places / n).log2 ∨ least ≤ -1074 := by
            by_cases below : least ≤ -1074
            · exact .inr below
            · exact .inl (le_log2_quotient positive positive' (by omega))
          have quotient : value (.finite s m e positive) / value (.finite t n f positive') =
              factor (s / t) * ((m <<< places : ℕ) / n * 2 ^ least) := by
            have up := shiftLeft_mul m places (e - f)
            rw [show e - f - places = least by omega] at up
            calc factor s * (m * 2 ^ e) / (factor t * (n * 2 ^ f))
                = factor s / factor t * (m * (2 ^ e / 2 ^ f) / n) := by field_simp
              _ = factor s / factor t * ((m <<< places : ℕ) * 2 ^ least / n) := by
                rw [← zpow_sub₀ (by norm_num), up]
              _ = factor (s / t) * ((m <<< places : ℕ) / n * 2 ^ least) := by
                rw [factor_div]
                ring
          rw [quotient]
          exact nearest_roundWithAccuracy _ bits (tells_remainder positive')

end Rollup.Binary64
