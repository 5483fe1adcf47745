import Rollup.Proofs.Key.Amount

/-! # Integers that are kept

A whole number that fits a significand is the exact amount of the floating-point number nearest to it.
-/

namespace Rollup.Binary64

/-- The number nearest to an integer has exactly its amount. -/
structure Faithful (n : Int) : Prop where
  finite : (ofInt n).isFinite
  amount : amount (ofInt n) = n

/-- Below 2⁵³ the significand is the number itself, moved up to the leading place. -/
theorem bitsOfNat_of_lt {n : Nat} (positive : n ≠ 0) (small : n < 2 ^ 53) :
    bitsOfNat n / hiddenBit = n.log2 + 1023 ∧
      hiddenBit + bitsOfNat n % hiddenBit = n * 2 ^ (52 - n.log2) := by
  have short : n.log2 ≤ 52 := Nat.lt_succ_iff.mp ((Nat.log2_lt positive).mpr small)
  have bits : bitsOfNat n = (n.log2 + 1022) * hiddenBit + n * 2 ^ (52 - n.log2) := by
    simp only [bitsOfNat, if_neg positive, if_pos short, Nat.shiftLeft_eq]
  have leading : 2 ^ n.log2 * 2 ^ (52 - n.log2) = hiddenBit := by
    rw [← Nat.pow_add, Nat.add_sub_cancel' short]
    rfl
  have low := Nat.mul_le_mul_right (2 ^ (52 - n.log2)) (Nat.log2_self_le positive)
  have high := Nat.mul_lt_mul_of_pos_right (Nat.lt_log2_self (n := n)) (Nat.two_pow_pos (52 - n.log2))
  rw [Nat.pow_succ, Nat.mul_right_comm, leading] at high
  rw [leading] at low
  rw [bits]
  simp only [hiddenBit] at *
  omega

theorem faithful_of_lt {n : Int} (small : n.natAbs < 2 ^ 53) : Faithful n := by
  have within : n.natAbs ≤ 2 ^ 64 := by omega
  refine ⟨isFinite_ofInt within, ?_⟩
  by_cases zero : n = 0
  · subst zero
    exact amount_of_magnitude (magnitude_ofInt within)
  have positive : n.natAbs ≠ 0 := Int.natAbs_ne_zero.mpr zero
  have short : n.natAbs.log2 ≤ 52 := Nat.lt_succ_iff.mp ((Nat.log2_lt positive).mpr small)
  obtain ⟨field, significand⟩ := bitsOfNat_of_lt positive small
  have sign : isNegative (ofInt n) = decide (n < 0) := by
    have below := bitsOfNat_lt within
    rw [Bool.eq_iff_iff, isNegative_iff, toBits_ofInt within, decide_eq_true_eq]
    simp only [hiddenBit, signBit] at *
    split_ifs <;> omega
  have exponent : ((n.natAbs.log2 + 1023 : Nat) : Int) - 1075 = (n.natAbs.log2 : Int) - 52 := by omega
  have parts : scaled (ofInt n) =
      ⟨decide (n < 0), n.natAbs * 2 ^ (52 - n.natAbs.log2), (n.natAbs.log2 : Int) - 52⟩ := by
    simp only [scaled, magnitude_ofInt within, field, significand, sign, exponent]
    rw [if_neg (by omega)]
  have scale : (2 : ℚ) ^ (52 - n.natAbs.log2) * 2 ^ ((n.natAbs.log2 : Int) - 52) = 1 := by
    rw [← zpow_natCast, ← zpow_add₀ (by norm_num), Nat.cast_sub short]
    norm_num
  have signed : (if n < 0 then -1 else 1) * (n.natAbs : ℚ) = n := by
    split_ifs with negative
    · rw [Nat.cast_natAbs, abs_of_neg negative]
      push_cast
      ring
    · rw [Nat.cast_natAbs, abs_of_nonneg (Int.not_lt.mp negative), one_mul]
  calc
    amount (ofInt n) = (if n < 0 then -1 else 1) *
        ((n.natAbs * 2 ^ (52 - n.natAbs.log2) : Nat) : ℚ) * 2 ^ ((n.natAbs.log2 : Int) - 52) := by
      simp only [amount, parts, decide_eq_true_eq]
    _ = (if n < 0 then -1 else 1) * (n.natAbs : ℚ) *
        ((2 : ℚ) ^ (52 - n.natAbs.log2) * 2 ^ ((n.natAbs.log2 : Int) - 52)) := by
      rw [Nat.cast_mul, Nat.cast_pow, Nat.cast_ofNat, mul_assoc, mul_assoc, mul_assoc]
    _ = n := by rw [scale, mul_one, signed]

end Rollup.Binary64
