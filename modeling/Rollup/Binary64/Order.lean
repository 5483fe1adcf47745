import Rollup.Binary64.Basic

/-! # The total order of floating-point numbers

Negative numbers come first, `-0.0` stands before `0.0`, and what is not a number stands at an end.
The order is that of an integer rank. The rank tells any two numbers apart, also the two zeros; there
is only one value here that is not a number.
-/

namespace Rollup.Binary64

/-- Place of a number in the total order. -/
def rank (x : Float) : Int :=
  if isNegative x then -(magnitude x : Int) - 1 else magnitude x

/-- Compare two numbers in the total order. -/
def compareTotal (x y : Float) : Ordering := compare (rank x) (rank y)

theorem compareTotal_swap (x y : Float) : (compareTotal x y).swap = compareTotal y x := by
  simp only [compareTotal, Int.compare_swap]

theorem compareTotal_eq_iff (x y : Float) : compareTotal x y = .eq ↔ rank x = rank y := by
  simp only [compareTotal, Int.compare_eq_eq]

end Rollup.Binary64
