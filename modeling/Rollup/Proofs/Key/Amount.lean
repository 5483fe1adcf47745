import Rollup.Proofs.Filter.Equality

/-! # Equal amounts and equal keys

A number stands for an amount, which rounding to a floating-point number may change. Keys keep the whole
numbers of 64 bits with a sign as they are; larger ones are rounded, and there two amounts may get one
key.
-/

namespace Rollup

namespace Binary64

/-- The exact amount of a finite number. -/
def amount (x : Float) : ℚ :=
  let s := scaled x
  (if s.negative then -1 else 1) * s.significand * 2 ^ s.exponent

theorem amount_of_magnitude {x : Float} (zero : magnitude x = 0) : amount x = 0 := by
  simp [amount, scaled, zero]

theorem magnitude_of_beq_zero {x : Float} (finite : x.isFinite) (zero : (x == 0.0) = true) :
    magnitude x = 0 := by
  rcases eq_or_zero_of_beq finite zero with rfl | ⟨empty, -⟩
  · decide
  · exact empty

/-- Numbers that are the same but for the sign of zero. -/
theorem eq_or_zero_of_unsignedZero {x y : Float} (hx : x.isFinite) (hy : y.isFinite)
    (h : unsignedZero x = unsignedZero y) : x = y ∨ magnitude x = 0 ∧ magnitude y = 0 := by
  unfold unsignedZero at h
  by_cases first : (x == 0.0) = true <;> by_cases second : (y == 0.0) = true <;>
    simp only [first, second, if_true, if_false, Bool.false_eq_true] at h
  · exact .inr ⟨magnitude_of_beq_zero hx first, magnitude_of_beq_zero hy second⟩
  · rw [← h] at second
    exact absurd (by decide) second
  · rw [h] at first
    exact absurd (by decide) first
  · exact .inl h

theorem amount_of_unsignedZero {x y : Float} (hx : x.isFinite) (hy : y.isFinite)
    (h : unsignedZero x = unsignedZero y) : amount x = amount y := by
  rcases eq_or_zero_of_unsignedZero hx hy h with rfl | ⟨first, second⟩
  · rfl
  · rw [amount_of_magnitude first, amount_of_magnitude second]

end Binary64

namespace Number

/-- The exact amount that a number stands for. -/
def amount : Number → ℚ
  | .int n => n
  | .float x => Binary64.amount x

/-- A whole number past those of 64 bits with a sign. -/
def Large : Number → Prop
  | .int n => Word64.greatest < n
  | .float _ => False

/-- Different amounts that are rounded to one floating-point number, where at least one is a large whole
number and none is a whole number of 64 bits with a sign. -/
structure Confused (m n : Number) : Prop where
  differ : m.amount ≠ n.amount
  large : m.Large ∨ n.Large
  unsigned : m.toInt? = none ∧ n.toInt? = none
  rounded : m.toFloat = n.toFloat

variable {m n : Number}

theorem amount_of_toInt? {i : Int} (h : n.toInt? = some i) : n.amount = i := by
  cases n with
  | float x => cases h
  | int n =>
      obtain ⟨rfl, -⟩ := Word64.fits?_eq_some_iff.mp h
      rfl

/-- What has no 64 bits with a sign is large, or written as a floating-point number. -/
theorem large_or_float (read : n.InRange) (unsigned : n.toInt? = none) :
    n.Large ∨ ∃ x, n = .float x := by
  cases n with
  | float x => exact .inr ⟨x, rfl⟩
  | int n =>
      left
      by_contra small
      have holds : Word64.Holds n := ⟨read.1, Int.not_lt.mp small⟩
      rw [toInt?, Word64.fits?, if_pos holds] at unsigned
      cases unsigned

theorem magnitude_of_large (read : n.InRange) (large : n.Large) :
    Binary64.magnitude n.toFloat ≠ 0 := by
  cases n with
  | float x => exact large.elim
  | int n =>
      intro zero
      rw [toFloat, Binary64.magnitude_ofInt (natAbs_le read)] at zero
      have empty : n.natAbs = 0 := Binary64.eq_of_bitsOfNat (by decide) zero
      have positive : Word64.greatest < n := large
      unfold Word64.greatest at positive
      omega

/-- The key of a number is the number itself, or what it is rounded to. -/
theorem key_cases {key : Key} (h : Key.ofJson? (.number n) = some key) :
    (∃ i, n.toInt? = some i ∧ key = .int i) ∨
      n.toInt? = none ∧ key = .float (Binary64.unsignedZero n.toFloat) := by
  simp only [Key.ofJson?] at h
  cases whole : n.toInt? with
  | some i =>
      rw [whole] at h
      exact .inl ⟨i, rfl, (Option.some.inj h).symm⟩
  | none =>
      rw [whole] at h
      exact .inr ⟨rfl, (Option.some.inj h).symm⟩

/-- Numbers have one key for two amounts only if they are confused. -/
theorem confused_of_key {key : Key} (hm : m.InRange) (hn : n.InRange)
    (first : Key.ofJson? (.number m) = some key) (second : Key.ofJson? (.number n) = some key)
    (differ : m.amount ≠ n.amount) : m.Confused n := by
  rcases key_cases first with ⟨i, hi, rfl⟩ | ⟨unsigned, rfl⟩
  · rcases key_cases second with ⟨j, hj, same⟩ | ⟨-, same⟩
    · cases same
      exact absurd ((amount_of_toInt? hi).trans (amount_of_toInt? hj).symm) differ
    · cases same
  rcases key_cases second with ⟨j, -, same⟩ | ⟨unsigned', same⟩
  · cases same
  have rounded := Key.float.inj same
  have large : m.Large ∨ n.Large := by
    rcases large_or_float hm unsigned with large | ⟨x, rfl⟩
    · exact .inl large
    rcases large_or_float hn unsigned' with large | ⟨y, rfl⟩
    · exact .inr large
    exact absurd (Binary64.amount_of_unsignedZero hm hn rounded) differ
  refine ⟨differ, large, ⟨unsigned, unsigned'⟩, ?_⟩
  rcases Binary64.eq_or_zero_of_unsignedZero (isFinite_toFloat hm) (isFinite_toFloat hn) rounded with
    equal | ⟨zero, zero'⟩
  · exact equal
  · rcases large with large | large
    · exact absurd zero (magnitude_of_large hm large)
    · exact absurd zero' (magnitude_of_large hn large)

end Number

/-! ## Equal values -/

/-- Equal scalars: numbers are equal if their amounts are. -/
inductive SameScalar : Json → Json → Prop where
  | null : SameScalar .null .null
  | bool (b : Bool) : SameScalar (.bool b) (.bool b)
  | string (s : String) : SameScalar (.string s) (.string s)
  | number {m n : Number} : m.amount = n.amount → SameScalar (.number m) (.number n)

namespace Json

/-- What reading produces: a number is in range. -/
def InRange (value : Json) : Prop := ∀ n ∈ value.number?, n.InRange

/-- Numbers that are confused. -/
def Confused (a b : Json) : Prop := ∃ m ∈ a.number?, ∃ n ∈ b.number?, m.Confused n

end Json

namespace Key

/-- Numbers have keys of their own. -/
theorem number_of_ofJson? {value : Json} {n : Number} {key : Key} (first : ofJson? value = some key)
    (second : ofJson? (.number n) = some key) : ∃ m, value = .number m := by
  cases value with
  | number m => exact ⟨m, rfl⟩
  | array | object => cases first
  | null | bool | string =>
      rcases Number.key_cases second with ⟨i, -, rfl⟩ | ⟨-, rfl⟩ <;> cases first

/-- The keys of other values tell what they are. -/
theorem eq_of_ofJson? {a b : Json} {key : Key} (other : b.number? = none)
    (first : ofJson? a = some key) (second : ofJson? b = some key) : a = b := by
  cases a with
  | number m =>
      obtain ⟨n, rfl⟩ := number_of_ofJson? second first
      cases other
  | array | object => cases first
  | null | bool | string =>
      cases first
      cases b <;> simp_all [ofJson?, Json.number?]

/-- Values of one key are equal scalars unless they are confused, and confused values have one key. -/
theorem confused_iff {a b : Json} {key key' : Key} (ha : a.InRange) (hb : b.InRange)
    (first : ofJson? a = some key) (second : ofJson? b = some key') :
    key = key' ∧ ¬ SameScalar a b ↔ a.Confused b := by
  constructor
  · rintro ⟨rfl, differ⟩
    cases b with
    | number n =>
        obtain ⟨m, rfl⟩ := number_of_ofJson? first second
        refine ⟨m, rfl, n, rfl, ?_⟩
        exact Number.confused_of_key (ha m rfl) (hb n rfl) first second fun same => differ (.number same)
    | null | bool | string =>
        obtain rfl := eq_of_ofJson? rfl first second
        exact absurd (by constructor) differ
    | array | object => cases second
  · rintro ⟨m, hm, n, hn, confused⟩
    cases a <;> cases hm
    cases b <;> cases hn
    simp only [ofJson?, confused.unsigned.1, confused.unsigned.2] at first second
    cases first
    cases second
    refine ⟨by rw [confused.rounded], ?_⟩
    rintro (_ | _ | _ | same)
    exact confused.differ same

end Key

end Rollup
