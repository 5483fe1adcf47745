/-! # Whole numbers of 64 bits

Where whole numbers are kept in 64 bits, those with a sign run from `least` to `greatest`, and those
without one stay below `count`.
-/

namespace Rollup.Word64

/-- How many values 64 bits have. -/
def count : Nat := 0x10000000000000000

/-- The least number with a sign. -/
def least : Int := -0x8000000000000000

/-- The greatest number with a sign. -/
def greatest : Int := 0x7fffffffffffffff

/-- The number fits when one bit is its sign. -/
def Holds (n : Int) : Prop := least ≤ n ∧ n ≤ greatest

instance (n : Int) : Decidable (Holds n) := by unfold Holds; infer_instance

/-- The number itself, if it fits. -/
def fits? (n : Int) : Option Int := if Holds n then some n else none

/-- The nearest number that fits. -/
def clamp (n : Int) : Int := max least (min greatest n)

theorem fits?_eq_some_iff {n m : Int} : fits? n = some m ↔ m = n ∧ Holds n := by
  unfold fits?
  split <;> simp_all [eq_comm]

/-- What is brought into the range fits. -/
theorem holds_clamp (n : Int) : Holds (clamp n) := by
  unfold Holds clamp least greatest
  omega

theorem clamp_of_holds {n : Int} (h : Holds n) : clamp n = n := by
  unfold Holds least greatest at h
  unfold clamp least greatest
  omega

end Rollup.Word64
