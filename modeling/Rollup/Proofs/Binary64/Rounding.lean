import Rollup.Proofs.Binary64.Pattern
import Rollup.Word64

/-! # Rounding of integers

The bits of the number nearest to a natural number grow with it, a carry into the exponent
included. So going from whole numbers of 64 bits to floating-point numbers keeps their order, and
below 2⁵³ it tells them apart.
-/

namespace Rollup.Binary64

/-- What rounding adds to the bits that are kept, where `rest` is what the others amount to. -/
private def roundUp (unit kept rest : Nat) : Nat :=
  if 2 * rest < unit then 0 else if unit < 2 * rest then 1 else kept % 2

private theorem roundUp_mono {unit kept rest rest' : Nat} (h : rest ≤ rest') :
    roundUp unit kept rest ≤ roundUp unit kept rest' := by
  unfold roundUp
  split_ifs <;> omega

private theorem roundUp_le_one (unit kept rest : Nat) : roundUp unit kept rest ≤ 1 := by
  unfold roundUp
  split_ifs <;> omega

private theorem bitsOfNat_eq {n : Nat} (h : n ≠ 0) :
    bitsOfNat n =
      if n.log2 ≤ 52 then (n.log2 + 1022) * hiddenBit + n * 2 ^ (52 - n.log2)
      else
        let unit := 2 ^ (n.log2 - 52)
        (n.log2 + 1022) * hiddenBit + n / unit + roundUp unit (n / unit) (n % unit) := by
  simp only [bitsOfNat, if_neg h, roundUp, Nat.shiftLeft_eq, Nat.one_mul]

/-- The exponent is that of the leading bit, or the next one after a carry. -/
theorem bitsOfNat_bounds {n : Nat} (h : n ≠ 0) :
    (n.log2 + 1023) * hiddenBit ≤ bitsOfNat n ∧ bitsOfNat n ≤ (n.log2 + 1024) * hiddenBit := by
  have low : 2 ^ n.log2 ≤ n := Nat.log2_self_le h
  have high : n < 2 ^ (n.log2 + 1) := Nat.lt_log2_self
  rw [bitsOfNat_eq h]
  split_ifs with small
  · have scaled : 2 ^ n.log2 * 2 ^ (52 - n.log2) = hiddenBit := by
      rw [← Nat.pow_add, Nat.add_sub_cancel' small]; rfl
    have lowScaled := Nat.mul_le_mul_right (2 ^ (52 - n.log2)) low
    have highScaled := Nat.mul_le_mul_right (2 ^ (52 - n.log2)) high.le
    rw [Nat.pow_succ, Nat.mul_right_comm] at highScaled
    simp only [scaled, hiddenBit] at lowScaled highScaled ⊢
    omega
  · have scaled : hiddenBit * 2 ^ (n.log2 - 52) = 2 ^ n.log2 := by
      rw [show hiddenBit = 2 ^ 52 from rfl, ← Nat.pow_add]; congr 1; omega
    have positive : 0 < 2 ^ (n.log2 - 52) := Nat.two_pow_pos _
    have lowKept : hiddenBit ≤ n / 2 ^ (n.log2 - 52) := by
      rw [Nat.le_div_iff_mul_le positive, scaled]; exact low
    have highKept : n / 2 ^ (n.log2 - 52) < 2 * hiddenBit := by
      rw [Nat.div_lt_iff_lt_mul positive, Nat.mul_assoc, scaled, Nat.mul_comm, ← Nat.pow_succ]
      exact high
    have up := roundUp_le_one (2 ^ (n.log2 - 52)) (n / 2 ^ (n.log2 - 52)) (n % 2 ^ (n.log2 - 52))
    simp only [hiddenBit] at *
    omega

theorem bitsOfNat_mono {m n : Nat} (h : m ≤ n) : bitsOfNat m ≤ bitsOfNat n := by
  by_cases hm : m = 0
  · subst hm; exact Nat.zero_le _
  have hn : n ≠ 0 := by omega
  have order : m.log2 ≤ n.log2 := (Nat.le_log2 hn).mpr ((Nat.log2_self_le hm).trans h)
  rcases order.lt_or_eq with less | same
  · calc
      bitsOfNat m ≤ (m.log2 + 1024) * hiddenBit := (bitsOfNat_bounds hm).2
      _ ≤ (n.log2 + 1023) * hiddenBit := Nat.mul_le_mul_right _ (by omega)
      _ ≤ bitsOfNat n := (bitsOfNat_bounds hn).1
  · rw [bitsOfNat_eq hm, bitsOfNat_eq hn, same]
    split_ifs
    · exact Nat.add_le_add_left (Nat.mul_le_mul_right _ h) _
    · have kept : m / 2 ^ (n.log2 - 52) ≤ n / 2 ^ (n.log2 - 52) := Nat.div_le_div_right h
      rcases kept.lt_or_eq with less | equal
      · have up := roundUp_le_one (2 ^ (n.log2 - 52)) (m / 2 ^ (n.log2 - 52))
          (m % 2 ^ (n.log2 - 52))
        simp only
        omega
      · have rest : m % 2 ^ (n.log2 - 52) ≤ n % 2 ^ (n.log2 - 52) := by
          have first := Nat.div_add_mod m (2 ^ (n.log2 - 52))
          have second := Nat.div_add_mod n (2 ^ (n.log2 - 52))
          rw [equal] at first
          omega
        simp only [equal]
        exact Nat.add_le_add_left (roundUp_mono rest) _

/-- A number that fits a significand is not rounded to the next one. -/
theorem bitsOfNat_lt_succ {n : Nat} (exact : n < 2 ^ 53) : bitsOfNat n < bitsOfNat (n + 1) := by
  by_cases hn : n = 0
  · subst hn; decide
  have small : n.log2 ≤ 52 := Nat.lt_succ_iff.mp ((Nat.log2_lt hn).mpr exact)
  have positive : 0 < 2 ^ (52 - n.log2) := Nat.two_pow_pos _
  have low : 2 ^ n.log2 ≤ n := Nat.log2_self_le hn
  have high : n + 1 ≤ 2 ^ (n.log2 + 1) := Nat.lt_log2_self
  have hn' : n + 1 ≠ 0 := n.succ_ne_zero
  rw [bitsOfNat_eq hn, if_pos small]
  rcases high.lt_or_eq with within | carry
  · have same : (n + 1).log2 = n.log2 := (Nat.log2_eq_iff hn').mpr ⟨by omega, within⟩
    rw [bitsOfNat_eq hn', same, if_pos small]
    exact Nat.add_lt_add_left (Nat.mul_lt_mul_of_pos_right n.lt_succ_self positive) _
  · have next : (n + 1).log2 = n.log2 + 1 := by rw [carry, Nat.log2_two_pow]
    have scaled : (n + 1) * 2 ^ (52 - n.log2) = 2 * hiddenBit := by
      rw [carry, ← Nat.pow_add, show n.log2 + 1 + (52 - n.log2) = 53 by omega]; rfl
    have grows := Nat.mul_lt_mul_of_pos_right n.lt_succ_self positive
    have least := (bitsOfNat_bounds hn').1
    rw [scaled] at grows
    rw [next] at least
    simp only [hiddenBit] at *
    omega

theorem bitsOfNat_strict {m n : Nat} (exact : m < 2 ^ 53) (h : m < n) :
    bitsOfNat m < bitsOfNat n :=
  (bitsOfNat_lt_succ exact).trans_le (bitsOfNat_mono h)

theorem eq_of_bitsOfNat {m n : Nat} (exact : n < 2 ^ 53) (h : bitsOfNat m = bitsOfNat n) :
    m = n := by
  rcases Nat.lt_trichotomy m n with less | same | more
  · exact absurd h (bitsOfNat_strict (less.trans exact) less).ne
  · exact same
  · exact absurd h (bitsOfNat_strict exact more).ne'

/-! ## Whole numbers of 64 bits -/

/-- Numbers of 64 bits, with a sign or without one, are far below infinity. -/
theorem bitsOfNat_lt {n : Nat} (h : n ≤ 2 ^ 64) : bitsOfNat n < 1100 * hiddenBit :=
  calc
    bitsOfNat n ≤ bitsOfNat (2 ^ 64) := bitsOfNat_mono h
    _ < 1100 * hiddenBit := by decide

theorem toBits_ofInt {n : Int} (h : n.natAbs ≤ 2 ^ 64) :
    (ofInt n).toBits.toNat = bitsOfNat n.natAbs + if n < 0 then signBit else 0 := by
  have below := bitsOfNat_lt h
  have bits : (UInt64.ofNat (bitsOfNat n.natAbs + if n < 0 then signBit else 0)).toNat
      = bitsOfNat n.natAbs + if n < 0 then signBit else 0 := by
    rw [UInt64.toNat_ofNat']
    apply Nat.mod_eq_of_lt
    simp only [hiddenBit, signBit] at *
    split_ifs <;> omega
  have pattern : (ofInt n).toBits
      = UInt64.ofNat (bitsOfNat n.natAbs + if n < 0 then signBit else 0) := by
    apply toBits_ofBits
    rw [bits]
    simp only [hiddenBit, signBit] at *
    split_ifs <;> omega
  rw [pattern, bits]

theorem magnitude_ofInt {n : Int} (h : n.natAbs ≤ 2 ^ 64) :
    magnitude (ofInt n) = bitsOfNat n.natAbs := by
  have below := bitsOfNat_lt h
  rw [magnitude, toBits_ofInt h]
  simp only [hiddenBit, signBit] at *
  split_ifs <;> omega

theorem isFinite_ofInt {n : Int} (h : n.natAbs ≤ 2 ^ 64) : (ofInt n).isFinite := by
  have below := bitsOfNat_lt h
  rw [isFinite_iff, magnitude_ofInt h]
  simp only [hiddenBit] at *
  omega

/-- A number that fits a significand equals no other one after rounding. -/
theorem eq_of_beq_ofInt {m n : Int} (hm : m.natAbs ≤ 2 ^ 64) (exact : n.natAbs < 2 ^ 53)
    (h : (ofInt m == ofInt n) = true) : m = n := by
  have hn : n.natAbs ≤ 2 ^ 64 := by omega
  have either := eq_or_zero_of_beq (isFinite_ofInt hm) h
  have sizes : m.natAbs = n.natAbs := by
    apply eq_of_bitsOfNat exact
    rw [← magnitude_ofInt hm, ← magnitude_ofInt hn]
    rcases either with same | ⟨first, second⟩
    · rw [same]
    · rw [first, second]
  rcases either with same | ⟨-, empty⟩
  · have bits := congrArg (fun x => x.toBits.toNat) same
    simp only [toBits_ofInt hm, toBits_ofInt hn, sizes, signBit] at bits
    split_ifs at bits <;> omega
  · rw [magnitude_ofInt hn] at empty
    have zero : n.natAbs = 0 := eq_of_bitsOfNat (by decide) empty
    omega

-- The bound is sharp.
example : (ofInt (2 ^ 53 + 1) == ofInt (2 ^ 53)) = true := by decide

/-! ## Order of numbers that fit a significand -/

theorem signedMagnitude_ofInt {n : Int} (h : n.natAbs ≤ 2 ^ 64) :
    signedMagnitude (ofInt n) = if n < 0 then -(bitsOfNat n.natAbs : Int) else bitsOfNat n.natAbs := by
  have below := bitsOfNat_lt h
  have negative : isNegative (ofInt n) ↔ n < 0 := by
    rw [isNegative_iff, toBits_ofInt h]
    simp only [hiddenBit, signBit] at *
    split_ifs <;> omega
  simp only [signedMagnitude, negative, magnitude_ofInt h]

theorem signedMagnitude_ofInt_strict {m n : Int} (hm : m.natAbs ≤ 2 ^ 53) (hn : n.natAbs ≤ 2 ^ 53)
    (h : m < n) : signedMagnitude (ofInt m) < signedMagnitude (ofInt n) := by
  rw [signedMagnitude_ofInt (by omega), signedMagnitude_ofInt (by omega)]
  split_ifs with first second
  · have := bitsOfNat_strict (show n.natAbs < 2 ^ 53 by omega) (show n.natAbs < m.natAbs by omega)
    omega
  · have := bitsOfNat_strict (show 0 < 2 ^ 53 by omega) (show 0 < m.natAbs by omega)
    omega
  · omega
  · have := bitsOfNat_strict (show m.natAbs < 2 ^ 53 by omega) (show m.natAbs < n.natAbs by omega)
    omega

theorem ofInt_lt_iff {m n : Int} (hm : m.natAbs ≤ 2 ^ 53) (hn : n.natAbs ≤ 2 ^ 53) :
    ofInt m < ofInt n ↔ m < n := by
  rw [lt_iff (isFinite_ofInt (by omega)) (isFinite_ofInt (by omega))]
  constructor
  · intro less
    by_contra least
    rcases (Int.not_lt.mp least).lt_or_eq with more | rfl
    · exact absurd (signedMagnitude_ofInt_strict hn hm more) less.not_gt
    · exact lt_irrefl _ less
  · exact signedMagnitude_ofInt_strict hm hn

theorem ofInt_le_iff {m n : Int} (hm : m.natAbs ≤ 2 ^ 53) (hn : n.natAbs ≤ 2 ^ 53) :
    ofInt m ≤ ofInt n ↔ m ≤ n := by
  rw [le_iff (isFinite_ofInt (by omega)) (isFinite_ofInt (by omega)), ← not_lt, ← not_lt,
    ← lt_iff (isFinite_ofInt (by omega)) (isFinite_ofInt (by omega)), ofInt_lt_iff hn hm]

theorem natAbs_le_of_holds {n : Int} (h : Word64.Holds n) : n.natAbs ≤ 2 ^ 64 := by
  unfold Word64.Holds Word64.least Word64.greatest at h
  omega

theorem rank_ofInt {n : Int} (h : Word64.Holds n) :
    rank (ofInt n) = if n < 0 then -(bitsOfNat n.natAbs : Int) - 1 else bitsOfNat n.natAbs := by
  have below := bitsOfNat_lt (natAbs_le_of_holds h)
  rw [rank_eq, toBits_ofInt (natAbs_le_of_holds h)]
  simp only [hiddenBit, signBit] at *
  split_ifs <;> omega

theorem rank_ofInt_mono {m n : Int} (hm : Word64.Holds m) (hn : Word64.Holds n) (h : m ≤ n) :
    rank (ofInt m) ≤ rank (ofInt n) := by
  rw [rank_ofInt hm, rank_ofInt hn]
  split_ifs with first second
  · have := bitsOfNat_mono (show n.natAbs ≤ m.natAbs by omega)
    omega
  · omega
  · omega
  · have := bitsOfNat_mono (show m.natAbs ≤ n.natAbs by omega)
    omega

end Rollup.Binary64
