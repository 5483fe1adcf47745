import Mathlib
import Rollup.Binary64.Order

/-! # Bit patterns of floating-point numbers

A number is determined by its bits, and bits below the pattern of infinity are those of the number
that they stand for. So the total order tells any two numbers apart, and finite numbers are equal
only if they have the same bits or both are zero. What is packed is unpacked as it was, unless it is
too large.
-/

namespace Rollup.Binary64

theorem toBits_injective {x y : Float} (h : x.toBits = y.toBits) : x = y := by
  obtain ⟨⟨a, ha⟩⟩ := x
  obtain ⟨⟨b, hb⟩⟩ := y
  simp only [Float.toBits] at h
  subst h
  rfl

section Packing

open Float.Model Float.Model.UnpackedFloat

variable (b : BitVec Format.binary64.numBits)

private theorem toNat_unpackExponent :
    (unpackExponent b).toNat = b.toNat / hiddenBit % 2048 := by
  simp only [unpackExponent, BitVec.toNat_cast, BitVec.extractLsb_toNat, Nat.shiftRight_eq_div_pow]
  rfl

private theorem toNat_unpackMantissa :
    (unpackMantissa b).toNat = b.toNat % hiddenBit := by
  simp only [unpackMantissa, BitVec.toNat_cast, BitVec.extractLsb_toNat, Nat.shiftRight_eq_div_pow]
  simp [hiddenBit]

private theorem sign_ofBitVec (s : BitVec 1) : (Sign.ofBitVec s).toBitVec = s := by
  revert s
  decide

private theorem append_unpack : unpackSign b ++ unpackExponent b ++ unpackMantissa b = b := by
  ext i hi
  have bound : i < 64 := hi
  have width : Format.binary64.numBits = 64 := rfl
  simp only [unpackSign, unpackExponent, unpackMantissa, BitVec.getElem_append, BitVec.getElem_cast,
    BitVec.getElem_extract]
  split_ifs with mantissa exponent
  · rw [Nat.zero_add, BitVec.getLsbD_eq_getElem]
  · rw [BitVec.getLsbD_eq_getElem (by omega)]
    congr 1
    omega
  · rw [BitVec.getLsbD_eq_getElem (by omega)]
    congr 1
    omega

private theorem pack_parts {exponent : BitVec 11} {mantissa : BitVec 52}
    (he : exponent = unpackExponent b) (hm : mantissa = unpackMantissa b) :
    packComponents Format.binary64 (Sign.ofBitVec (unpackSign b)) exponent mantissa = b := by
  rw [he, hm, packComponents, sign_ofBitVec, append_unpack]

/-- Packing gives the pattern back that was unpacked, unless it stands for no finite number. -/
private theorem pack_unpack (finite : unpackExponent b ≠ -1#_) :
    UnpackedFloat.pack Format.binary64 (UnpackedFloat.unpack Format.binary64 b) = b := by
  have mantissaLt : (unpackMantissa b).toNat < 2 ^ 52 := (unpackMantissa b).isLt
  have exponentLt : (unpackExponent b).toNat < 2 ^ 11 := (unpackExponent b).isLt
  have bias : (Format.binary64.exponentBias : Int) = 1023 := rfl
  have width : (Format.binary64.mantissaBitsWithoutImplicit : Int) = 52 := rfl
  have exponentNe : (unpackExponent b).toNat ≠ 2047 := fun same =>
    finite (BitVec.eq_of_toNat_eq (by simpa using same))
  rw [UnpackedFloat.unpack]
  simp only [if_neg finite]
  split_ifs with zero empty
  · exact pack_parts b zero.symm empty.symm
  · -- below the least normal number
    have field : ((unpackExponent b).toNat - (Format.binary64.exponentBias
        + Format.binary64.mantissaBitsWithoutImplicit) + 1 + Format.binary64.exponentBias
        + Format.binary64.mantissaBitsWithoutImplicit : Int).toNat = 1 := by
      rw [zero]; rfl
    have short : ¬ (unpackMantissa b).toNat.log2 + 1 = Format.binary64.mantissaBits := by
      have nonzero : (unpackMantissa b).toNat ≠ 0 := fun c => empty (BitVec.eq_of_toNat_eq c)
      have below := (Nat.log2_lt nonzero).mpr mantissaLt
      have bits : Format.binary64.mantissaBits = 53 := rfl
      omega
    rw [UnpackedFloat.pack]
    simp only [field]
    rw [if_neg (by decide), if_neg short]
    exact pack_parts b zero.symm (by rw [BitVec.ofNat_toNat, BitVec.setWidth_eq])
  · -- a normal number, whose hidden bit comes and goes
    have field : ((unpackExponent b).toNat - (Format.binary64.exponentBias
        + Format.binary64.mantissaBitsWithoutImplicit) + Format.binary64.exponentBias
        + Format.binary64.mantissaBitsWithoutImplicit : Int).toNat = (unpackExponent b).toNat := by
      omega
    have significand : (1#1 ++ unpackMantissa b).toNat = 2 ^ 52 + (unpackMantissa b).toNat := by
      rw [BitVec.toNat_append, ← Nat.shiftLeft_add_eq_or_of_lt mantissaLt]
      rfl
    have long : (2 ^ 52 + (unpackMantissa b).toNat).log2 = 52 := by
      rw [Nat.log2_eq_iff (by omega)]
      omega
    have inRange : ¬ 2 ^ Format.binary64.exponentBits ≤ (unpackExponent b).toNat + 1 := by
      show ¬ 2 ^ 11 ≤ _
      omega
    have mantissa : BitVec.ofNat 52 (2 ^ 52 + (unpackMantissa b).toNat) = unpackMantissa b := by
      apply BitVec.eq_of_toNat_eq
      rw [BitVec.toNat_ofNat]
      omega
    rw [UnpackedFloat.pack]
    simp only [field, significand, long]
    rw [if_neg inRange, if_pos (show 52 + 1 = Format.binary64.mantissaBits from rfl)]
    exact pack_parts b (by rw [BitVec.ofNat_toNat, BitVec.setWidth_eq]) mantissa

private theorem special_iff : unpackExponent b = -1#_ ↔ b.toNat / hiddenBit % 2048 = 2047 := by
  rw [← BitVec.toNat_inj, toNat_unpackExponent]
  rfl

private theorem isFinite_unpack :
    (UnpackedFloat.unpack Format.binary64 b).isFinite ↔ unpackExponent b ≠ -1#_ := by
  rw [UnpackedFloat.unpack]
  by_cases special : unpackExponent b = -1#_
  · simp only [if_pos special]
    split_ifs <;> exact iff_of_false nofun (not_not_intro special)
  · simp only [if_neg special]
    split_ifs <;> exact iff_of_true rfl special

private theorem zero_of_unpack {s : Sign} (h : UnpackedFloat.unpack Format.binary64 b = .zero s) :
    b.toNat % signBit = 0 := by
  have field := toNat_unpackExponent b
  have fraction := toNat_unpackMantissa b
  rw [UnpackedFloat.unpack] at h
  dsimp only at h
  split_ifs at h with special empty zero empty
  rw [zero] at field
  rw [empty] at fraction
  simp only [BitVec.toNat_zero, hiddenBit, signBit] at *
  omega

end Packing

/-- A pattern below that of infinity, its sign aside, is the one of the number it stands for. -/
theorem toBits_ofBits {bits : UInt64} (finite : bits.toNat % signBit < 2047 * hiddenBit) :
    (Float.ofBits bits).toBits = bits := by
  have exponent : @Float.Model.UnpackedFloat.unpackExponent Float.Model.Format.binary64
      bits.toBitVec ≠ -1#_ := by
    intro same
    have field : bits.toNat / hiddenBit % 2048 = 2047 := (special_iff _).mp same
    simp only [signBit, hiddenBit] at *
    omega
  exact congrArg UInt64.ofBitVec (pack_unpack bits.toBitVec exponent)

theorem isFinite_iff (x : Float) : x.isFinite ↔ magnitude x < 2047 * hiddenBit := by
  have finite : x.isFinite ↔ x.toBits.toNat / hiddenBit % 2048 ≠ 2047 :=
    (isFinite_unpack x.toBits.toBitVec).trans (special_iff _).not
  rw [finite]
  simp only [magnitude, signBit, hiddenBit]
  omega

/-! ## Equal numbers -/

section Equal

open Float.Model

private theorem compare_self {a : UnpackedFloat} (finite : a.isFinite) : a.compare a = some .eq := by
  cases a with
  | notANumber => cases finite
  | infinity s => cases finite
  | zero s => rfl
  | finite s m e positive => cases s <;> simp [UnpackedFloat.compare]

private theorem eq_of_compare {a b : UnpackedFloat} (finite : a.isFinite)
    (h : a.compare b = some .eq) : a = b ∨ ∃ s t, a = .zero s ∧ b = .zero t := by
  cases a with
  | notANumber => cases finite
  | infinity s => cases finite
  | zero s =>
      cases b with
      | notANumber => cases h
      | infinity t => cases t <;> cases h
      | zero t => exact .inr ⟨s, t, rfl, rfl⟩
      | finite t => cases t <;> cases h
  | finite s m e =>
      cases b with
      | notANumber => cases h
      | infinity t => cases s <;> cases t <;> cases h
      | zero t => cases s <;> cases h
      | finite t n f =>
          cases s <;> cases t <;>
            simp_all [UnpackedFloat.compare, Ordering.then_eq_eq, Ordering.swap_eq_eq]

theorem beq_self {x : Float} (finite : x.isFinite) : (x == x) = true := by
  show (x.toModel.unpack.compare x.toModel.unpack == some .eq) = true
  rw [compare_self finite]
  rfl

/-- Finite numbers that are equal have the same bits, unless both are zero. -/
theorem eq_or_zero_of_beq {x y : Float} (finite : x.isFinite) (h : (x == y) = true) :
    x = y ∨ magnitude x = 0 ∧ magnitude y = 0 := by
  have equal : x.toModel.unpack.compare y.toModel.unpack = some .eq :=
    beq_iff_eq.mp (show (x.toModel.unpack.compare y.toModel.unpack == some .eq) = true from h)
  rcases eq_of_compare finite equal with same | ⟨s, t, hx, hy⟩
  · left
    have finite' : y.toModel.unpack.isFinite := same ▸ finite
    apply toBits_injective
    apply UInt64.toBitVec_inj.mp
    calc
      x.toBits.toBitVec = UnpackedFloat.pack Format.binary64 x.toModel.unpack :=
        (pack_unpack _ ((isFinite_unpack _).mp finite)).symm
      _ = UnpackedFloat.pack Format.binary64 y.toModel.unpack := by rw [same]
      _ = y.toBits.toBitVec := pack_unpack _ ((isFinite_unpack _).mp finite')
  · exact .inr ⟨zero_of_unpack _ hx, zero_of_unpack _ hy⟩

private theorem isFinite_of_compare_zero {a : UnpackedFloat} {s : UnpackedFloat.Sign}
    (h : a.compare (.zero s) = some .eq) : a.isFinite := by
  cases a with
  | notANumber => cases h
  | infinity t => cases t <;> cases h
  | zero | finite => rfl

theorem isFinite_of_beq_zero {x : Float} (h : (x == 0.0) = true) : x.isFinite := by
  have zero : (0.0 : Float).toModel.unpack = .zero .positive := rfl
  have equal : x.toModel.unpack.compare (0.0 : Float).toModel.unpack = some .eq :=
    beq_iff_eq.mp (show (x.toModel.unpack.compare (0.0 : Float).toModel.unpack == some .eq) = true from h)
  rw [zero] at equal
  exact isFinite_of_compare_zero equal

end Equal

/-! ## Ordered numbers -/

/-- The bits but the sign, with the sign of the number: both zeros have the same. -/
def signedMagnitude (x : Float) : Int :=
  if isNegative x then -(magnitude x : Int) else magnitude x

section Ordered

open Float.Model Float.Model.UnpackedFloat

/-- How finite numbers are unpacked: the significand has its leading bit unless the exponent is the
least one. -/
def Canonical : UnpackedFloat → Prop
  | .zero _ => True
  | .finite _ m e _ => m < 2 * hiddenBit ∧ -1074 ≤ e ∧ (hiddenBit ≤ m ∨ e = -1074)
  | _ => False

/-- The exponent and the significand as one number. -/
def place : UnpackedFloat → Int
  | .finite s m e _ => s.apply ((e + 1074) * hiddenBit + m)
  | _ => 0

private theorem compare_parts {m n : Nat} {e f : Int}
    (hm : m < 2 * hiddenBit ∧ -1074 ≤ e ∧ (hiddenBit ≤ m ∨ e = -1074))
    (hn : n < 2 * hiddenBit ∧ -1074 ≤ f ∧ (hiddenBit ≤ n ∨ f = -1074)) :
    (Ord.compare e f).then (Ord.compare m n) =
      Ord.compare ((e + 1074) * hiddenBit + m : Int) ((f + 1074) * hiddenBit + n) := by
  simp only [hiddenBit] at *
  rcases Int.lt_trichotomy e f with less | same | more
  · rw [Int.compare_eq_lt.mpr less, Int.compare_eq_lt.mpr (by omega)]
    rfl
  · subst same
    rw [Int.compare_eq_eq.mpr rfl, Ordering.eq_then]
    rcases Nat.lt_trichotomy m n with less | same | more
    · rw [Nat.compare_eq_lt.mpr less, Int.compare_eq_lt.mpr (by omega)]
    · rw [Nat.compare_eq_eq.mpr same, Int.compare_eq_eq.mpr (by omega)]
    · rw [Nat.compare_eq_gt.mpr more, Int.compare_eq_gt.mpr (by omega)]
  · rw [Int.compare_eq_gt.mpr more, Int.compare_eq_gt.mpr (by omega)]
    rfl

private theorem place_pos {m : Nat} {e : Int} (positive : 0 < m)
    (h : m < 2 * hiddenBit ∧ -1074 ≤ e ∧ (hiddenBit ≤ m ∨ e = -1074)) :
    0 < (e + 1074) * hiddenBit + m := by
  simp only [hiddenBit] at *
  omega

private theorem compare_neg (i j : Int) : Ord.compare j i = Ord.compare (-i) (-j) := by
  rcases Int.lt_trichotomy i j with less | rfl | more
  · rw [Int.compare_eq_gt.mpr less, Int.compare_eq_gt.mpr (by omega)]
  · rw [Int.compare_eq_eq.mpr rfl, Int.compare_eq_eq.mpr rfl]
  · rw [Int.compare_eq_lt.mpr more, Int.compare_eq_lt.mpr (by omega)]

private theorem compare_eq {a b : UnpackedFloat} (ha : Canonical a) (hb : Canonical b) :
    a.compare b = some (Ord.compare (place a) (place b)) := by
  cases a with
  | notANumber => cases ha
  | infinity s => cases ha
  | zero s =>
      cases b with
      | notANumber => cases hb
      | infinity t => cases hb
      | zero t => rfl
      | finite t n f positive =>
          have := place_pos positive hb
          cases t
          · exact congrArg some (Int.compare_eq_gt.mpr (by simp only [place, Sign.apply]; omega)).symm
          · exact congrArg some (Int.compare_eq_lt.mpr (by simp only [place, Sign.apply]; omega)).symm
  | finite s m e positive =>
      have first := place_pos positive ha
      cases b with
      | notANumber => cases hb
      | infinity t => cases hb
      | zero t =>
          cases s
          · exact congrArg some (Int.compare_eq_lt.mpr (by simp only [place, Sign.apply]; omega)).symm
          · exact congrArg some (Int.compare_eq_gt.mpr (by simp only [place, Sign.apply]; omega)).symm
      | finite t n f positive' =>
          have second := place_pos positive' hb
          cases s <;> cases t
          · show some ((Ord.compare e f).then (Ord.compare m n)).swap = _
            rw [compare_parts ha hb, Int.compare_swap]
            exact congrArg some (compare_neg _ _)
          · exact congrArg some (Int.compare_eq_lt.mpr (by simp only [place, Sign.apply]; omega)).symm
          · exact congrArg some (Int.compare_eq_gt.mpr (by simp only [place, Sign.apply]; omega)).symm
          · exact congrArg some (compare_parts ha hb)

private theorem place_unpack {b : BitVec Format.binary64.numBits} (finite : unpackExponent b ≠ -1#_) :
    Canonical (UnpackedFloat.unpack Format.binary64 b) ∧
      place (UnpackedFloat.unpack Format.binary64 b) =
        (Sign.ofBitVec (unpackSign b)).apply (b.toNat % signBit : Nat) := by
  have exponent := toNat_unpackExponent b
  have mantissa := toNat_unpackMantissa b
  have bias : (Format.binary64.exponentBias : Int) = 1023 := rfl
  have width : (Format.binary64.mantissaBitsWithoutImplicit : Int) = 52 := rfl
  have exponentNe := (special_iff b).not.mp finite
  rw [UnpackedFloat.unpack]
  simp only [if_neg finite]
  split_ifs with zero empty
  · rw [zero] at exponent
    rw [empty] at mantissa
    simp only [BitVec.toNat_zero, hiddenBit, signBit] at *
    refine ⟨trivial, ?_⟩
    rw [show b.toNat % 0x8000000000000000 = 0 by omega]
    cases Sign.ofBitVec (unpackSign b) <;> rfl
  · rw [zero] at exponent
    refine ⟨⟨?_, ?_, .inr ?_⟩, congrArg (Sign.ofBitVec (unpackSign b)).apply ?_⟩ <;>
      simp only [zero, bias, width, BitVec.toNat_zero, hiddenBit, signBit] at * <;> omega
  · have nonzero : (unpackExponent b).toNat ≠ 0 := fun same =>
      zero (BitVec.eq_of_toNat_eq same)
    have significand : (1#1 ++ unpackMantissa b).toNat = hiddenBit + (unpackMantissa b).toNat := by
      rw [BitVec.toNat_append, ← Nat.shiftLeft_add_eq_or_of_lt (unpackMantissa b).isLt]
      rfl
    refine ⟨⟨?_, ?_, .inl ?_⟩, congrArg (Sign.ofBitVec (unpackSign b)).apply ?_⟩ <;>
      simp only [significand, bias, width, hiddenBit, signBit] at * <;> omega

private theorem sign_unpack (b : BitVec Format.binary64.numBits) (i : Int) :
    (Sign.ofBitVec (unpackSign b)).apply i = if signBit ≤ b.toNat then -i else i := by
  have bit : (unpackSign b).toNat = b.toNat / signBit % 2 := by
    simp only [unpackSign, BitVec.toNat_cast, BitVec.extractLsb_toNat, Nat.shiftRight_eq_div_pow]
    rfl
  have bound : b.toNat < 2 ^ 64 := b.isLt
  have positive : unpackSign b = 0#1 ↔ b.toNat < signBit := by
    rw [← BitVec.toNat_inj, bit]
    simp only [BitVec.toNat_zero, signBit]
    omega
  by_cases negative : signBit ≤ b.toNat
  · rw [if_pos negative, Sign.ofBitVec, if_neg (positive.not.mpr (Nat.not_lt.mpr negative))]
    rfl
  · rw [if_neg negative, Sign.ofBitVec, if_pos (positive.mpr (Nat.lt_of_not_le negative))]
    rfl

/-- The place of a finite number is its magnitude with its sign. -/
theorem place_toModel {x : Float} (finite : x.isFinite) :
    Canonical x.toModel.unpack ∧ place x.toModel.unpack = signedMagnitude x := by
  obtain ⟨canonical, placed⟩ := place_unpack ((isFinite_unpack x.toBits.toBitVec).mp finite)
  refine ⟨canonical, placed.trans ((sign_unpack _ _).trans ?_)⟩
  rw [signedMagnitude, isNegative]
  simp only [decide_eq_true_eq]
  rfl

/-- Finite numbers compare as their magnitudes with their signs. -/
private theorem compare_unpack {x y : Float} (hx : x.isFinite) (hy : y.isFinite) :
    x.toModel.unpack.compare y.toModel.unpack =
      some (Ord.compare (signedMagnitude x) (signedMagnitude y)) := by
  obtain ⟨canonicalX, placedX⟩ := place_toModel hx
  obtain ⟨canonicalY, placedY⟩ := place_toModel hy
  rw [compare_eq canonicalX canonicalY, placedX, placedY]

end Ordered

theorem lt_iff {x y : Float} (hx : x.isFinite) (hy : y.isFinite) :
    x < y ↔ signedMagnitude x < signedMagnitude y := by
  have less : x < y ↔ x.toModel.unpack.compare y.toModel.unpack = some .lt := by
    show decide (x.toModel < y.toModel) = true ↔ _
    rw [decide_eq_true_eq]
    exact beq_iff_eq
  rw [less, compare_unpack hx hy, Option.some.injEq, Int.compare_eq_lt]

theorem le_iff_compare {x y : Float} :
    x ≤ y ↔ (x.toModel.unpack.compare y.toModel.unpack).any (·.isLE) = true := by
  show decide (x.toModel ≤ y.toModel) = true ↔ _
  rw [decide_eq_true_eq]
  rfl

theorem le_iff {x y : Float} (hx : x.isFinite) (hy : y.isFinite) :
    x ≤ y ↔ signedMagnitude x ≤ signedMagnitude y := by
  rw [le_iff_compare, compare_unpack hx hy, Option.any_some, Int.isLE_compare]

/-- What stands between finite numbers is finite. -/
theorem isFinite_of_between {lower x upper : Float} (hl : lower.isFinite) (hu : upper.isFinite)
    (low : lower ≤ x) (high : x ≤ upper) : x.isFinite := by
  have hl : lower.toModel.unpack.isFinite := hl
  have hu : upper.toModel.unpack.isFinite := hu
  rw [le_iff_compare] at low high
  show x.toModel.unpack.isFinite
  generalize lower.toModel.unpack = a at *
  generalize upper.toModel.unpack = b at *
  generalize x.toModel.unpack = c at *
  cases c with
  | notANumber => cases a <;> cases low
  | infinity s =>
      cases s with
      | negative => cases a <;> first | cases low | cases hl
      | positive => cases b <;> first | cases high | cases hu
  | zero | finite => rfl

/-! ## Packing -/

section Packed

open Float.Model Float.Model.UnpackedFloat

private theorem getLsbD_first (sign : BitVec 1) (exponent : BitVec 11) (mantissa : BitVec 52) :
    (sign ++ exponent ++ mantissa).getLsbD 63 = sign[0] := by
  rw [BitVec.getLsbD_append, BitVec.getLsbD_append]
  simp

private theorem unpackSign_packComponents (s : Sign) (exponent : BitVec 11) (mantissa : BitVec 52) :
    @unpackSign Format.binary64 (packComponents Format.binary64 s exponent mantissa) = s.toBitVec := by
  ext i hi
  obtain rfl : i = 0 := by omega
  simp only [unpackSign, packComponents, BitVec.getElem_cast, BitVec.getElem_extract]
  exact getLsbD_first _ _ _

private theorem ofBitVec_toBitVec (s : Sign) : Sign.ofBitVec s.toBitVec = s := by
  cases s <;> rfl

private theorem finite_congr {s : Sign} {m m' : ℕ} {e e' : ℤ} (hm : m = m') (he : e = e')
    (positive : 0 < m) (positive' : 0 < m') :
    UnpackedFloat.finite s m e positive = .finite s m' e' positive' := by
  subst hm he
  rfl

private theorem unpack_normal {s : Sign} {m : ℕ} {e : ℤ} {positive : 0 < m} (full : 2 ^ 52 ≤ m)
    (short : m < 2 ^ 53) (least : -1074 ≤ e) (greatest : e ≤ 971) :
    UnpackedFloat.unpack Format.binary64 (packComponents Format.binary64 s
      (BitVec.ofNat 11 (e + 1075).toNat) (BitVec.ofNat 52 m)) = .finite s m e positive := by
  have mantissa : (BitVec.ofNat 52 m).toNat = m - 2 ^ 52 := by
    rw [BitVec.toNat_ofNat]
    omega
  have exponent : (BitVec.ofNat 11 (e + 1075).toNat).toNat = (e + 1075).toNat := by
    rw [BitVec.toNat_ofNat]
    omega
  have apart {x : BitVec 11} (other : x.toNat ≠ (e + 1075).toNat) :
      BitVec.ofNat 11 (e + 1075).toNat ≠ x := by
    rintro rfl
    exact other exponent
  have ordinary : BitVec.ofNat 11 (e + 1075).toNat ≠ -1#11 := apart (by simp; omega)
  have nonzero : BitVec.ofNat 11 (e + 1075).toNat ≠ 0#11 := apart (by simp; omega)
  rw [UnpackedFloat.unpack]
  simp only [unpackExponent_packComponents, unpackMantissa_packComponents,
    unpackSign_packComponents, ofBitVec_toBitVec]
  rw [if_neg ordinary, if_neg nonzero]
  refine finite_congr ?_ ?_ _ positive
  · rw [BitVec.toNat_append, ← Nat.shiftLeft_add_eq_or_of_lt (BitVec.isLt _), mantissa]
    have leading : (1#1).toNat <<< 52 = 2 ^ 52 := by decide
    omega
  · rw [exponent]
    show ((e + 1075).toNat : ℤ) - (1023 + 52) = e
    omega

private theorem unpack_subnormal {s : Sign} {m : ℕ} {positive : 0 < m} (below : m < 2 ^ 52) :
    UnpackedFloat.unpack Format.binary64 (packComponents Format.binary64 s 0#11 (BitVec.ofNat 52 m)) =
      .finite s m (-1074) positive := by
  have mantissa : (BitVec.ofNat 52 m).toNat = m := by
    rw [BitVec.toNat_ofNat]
    omega
  have nonzero : BitVec.ofNat 52 m ≠ 0#52 := by
    intro same
    rw [same, BitVec.toNat_zero] at mantissa
    exact positive.ne mantissa
  rw [UnpackedFloat.unpack]
  simp only [unpackExponent_packComponents, unpackMantissa_packComponents,
    unpackSign_packComponents, ofBitVec_toBitVec]
  rw [if_neg (by decide), if_pos trivial, dif_neg nonzero]
  exact finite_congr mantissa rfl _ positive

/-- A canonical number whose exponent fits is unpacked as it was packed. -/
theorem unpack_pack {u : UnpackedFloat} (canonical : Canonical u)
    (fits : ∀ s m e positive, u = .finite s m e positive → e ≤ 971) :
    (Float.Model.pack u).unpack = u := by
  cases u with
  | notANumber => cases canonical
  | infinity s => cases canonical
  | zero s => cases s <;> rfl
  | finite s m e positive =>
      obtain ⟨short, least, full⟩ := canonical
      have greatest := fits s m e positive rfl
      simp only [hiddenBit] at short full
      have field : (e + Format.binary64.exponentBias + Format.binary64.mantissaBitsWithoutImplicit).toNat
          = (e + 1075).toNat := by
        show (e + (1023 : ℕ) + (52 : ℕ)).toNat = _
        congr 1
        omega
      have inRange : ¬ 2 ^ Format.binary64.exponentBits ≤ (e + 1075).toNat + 1 := by
        show ¬ 2 ^ 11 ≤ _
        omega
      show UnpackedFloat.unpack Format.binary64 (UnpackedFloat.pack Format.binary64 _) = _
      rw [UnpackedFloat.pack]
      simp only [field, if_neg inRange]
      by_cases normal : 2 ^ 52 ≤ m
      · have bits : m.log2 = 52 := by
          rw [Nat.log2_eq_iff (by omega)]
          omega
        rw [if_pos (show m.log2 + 1 = Format.binary64.mantissaBits by rw [bits]; rfl)]
        exact unpack_normal normal short least greatest
      · obtain rfl : e = -1074 := by omega
        have bits : ¬ m.log2 + 1 = Format.binary64.mantissaBits := by
          have below := (Nat.log2_lt (Nat.ne_of_gt positive)).mpr (Nat.lt_of_not_le normal)
          have all : Format.binary64.mantissaBits = 53 := rfl
          omega
        rw [if_neg bits]
        exact unpack_subnormal (Nat.lt_of_not_le normal)

/-- A number whose exponent does not fit overflows. -/
theorem not_isFinite_pack {s : Sign} {m : ℕ} {e : ℤ} {positive : 0 < m} (large : 971 < e) :
    ¬ (Float.Model.pack (.finite s m e positive)).unpack.isFinite := by
  have past : 2 ^ Format.binary64.exponentBits ≤
      (e + Format.binary64.exponentBias + Format.binary64.mantissaBitsWithoutImplicit).toNat + 1 := by
    show 2 ^ 11 ≤ (e + (1023 : ℕ) + (52 : ℕ)).toNat + 1
    omega
  show ¬ (UnpackedFloat.unpack Format.binary64 (UnpackedFloat.pack Format.binary64 _)).isFinite
  rw [UnpackedFloat.pack]
  simp only [if_pos past]
  cases s <;> decide

end Packed

/-! ## Ranks -/

theorem isNegative_iff (x : Float) : isNegative x = true ↔ signBit ≤ x.toBits.toNat := by
  simp only [isNegative, decide_eq_true_eq]

theorem rank_eq (x : Float) :
    rank x = if x.toBits.toNat < signBit then (x.toBits.toNat : Int)
      else (signBit : Int) - 1 - x.toBits.toNat := by
  have bound : x.toBits.toNat < 2 ^ 64 := x.toBits.toNat_lt
  simp only [rank, isNegative_iff, magnitude, signBit]
  split_ifs <;> omega

theorem rank_injective {x y : Float} (h : rank x = rank y) : x = y := by
  apply toBits_injective
  apply UInt64.toNat_inj.mp
  simp only [rank_eq, signBit] at h
  split_ifs at h <;> omega

theorem isLE_compareTotal {x y : Float} : (compareTotal x y).isLE = true ↔ rank x ≤ rank y :=
  Int.isLE_compare

/-- Sorting by the total order sorts by ranks. -/
theorem pairwise_rank (values : List Float) :
    (values.mergeSort fun x y => (compareTotal x y).isLE).Pairwise fun x y => rank x ≤ rank y := by
  refine (List.pairwise_mergeSort ?_ ?_ values).imp fun le => isLE_compareTotal.mp le
  · intro x y z first second
    rw [isLE_compareTotal] at *
    exact first.trans second
  · intro x y
    rw [Bool.or_eq_true, isLE_compareTotal, isLE_compareTotal]
    exact Int.le_total _ _

end Rollup.Binary64
