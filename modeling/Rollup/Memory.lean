import Rollup.Error

/-! # Memory

What is kept while rows are read grows with the rows, and no limit is put on it here. Only where
memory is set aside before there is anything to keep in it, for as many numbers as a request says, may
there be too little of it.
-/

namespace Rollup

/-- The memory of a machine. -/
class Memory where
  /-- For how many numbers it can be set aside at once. -/
  room : Nat
  /-- A number takes eight bytes, and what is set aside at once spans fewer than `2 ^ 63` of them. -/
  room_lt : room < 1152921504606846976

namespace Memory

/-- A machine that sets aside whatever can be addressed. -/
instance addressable : Memory := ⟨1152921504606846975, by decide⟩

/-- Set memory aside. Nobody is told if there is too little: the work breaks down. -/
def setAside [Memory] (numbers : Nat) : Except Error Unit :=
  if numbers ≤ room then .ok () else .error .breakdown

variable [Memory] {numbers : Nat}

theorem setAside_of_le (fits : numbers ≤ room) : setAside numbers = .ok () := if_pos fits

theorem setAside_eq_error_iff {e : Error} :
    setAside numbers = .error e ↔ room < numbers ∧ e = .breakdown := by
  by_cases fits : numbers ≤ room
  · have enough : ¬ room < numbers := Nat.not_lt.mpr fits
    simp [setAside_of_le fits, enough]
  · have lack : room < numbers := Nat.not_le.mp fits
    simp [setAside, fits, lack, eq_comm]

end Memory

end Rollup
