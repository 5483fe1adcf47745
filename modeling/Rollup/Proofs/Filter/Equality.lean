import Rollup.Filter
import Rollup.Proofs.Binary64.Rounding

/-! # Equal values and equal keys

A filter compares numbers as floating-point numbers, and a number with a string that reads as it;
keys are compared as they are. A value equals its own key. In a column of one kind the reverse holds
for a key that rounding keeps apart from all others.
-/

namespace Rollup

open Binary64 (ofInt unsignedZero)

namespace Number

theorem natAbs_le {n : Int} (read : (int n).InRange) : n.natAbs ≤ 2 ^ 64 := by
  unfold InRange Word64.least Word64.count at read
  omega

theorem isFinite_toFloat {n : Number} (read : n.InRange) : n.toFloat.isFinite := by
  cases n with
  | int n => exact Binary64.isFinite_ofInt (natAbs_le read)
  | float x => exact read

end Number

section Zero

variable {x : Float} (finite : x.isFinite)

include finite

theorem isFinite_unsignedZero : (unsignedZero x).isFinite := by
  unfold unsignedZero
  split
  · decide
  · exact finite

theorem beq_unsignedZero : (x == unsignedZero x) = true := by
  unfold unsignedZero
  split
  · assumption
  · exact Binary64.beq_self finite

end Zero

theorem isFinite_unsignedZero_iff {x : Float} : (unsignedZero x).isFinite ↔ x.isFinite := by
  refine ⟨fun finite => ?_, isFinite_unsignedZero⟩
  by_cases zero : (x == 0.0) = true
  · exact Binary64.isFinite_of_beq_zero zero
  · rwa [unsignedZero, if_neg zero] at finite

/-- A key that rounding to a floating-point number does not bring together with another one. -/
def Key.Exact : Key → Prop
  | .int n => n.natAbs < 2 ^ 53
  | .float _ => False
  | _ => True

instance : DecidablePred Key.Exact
  | .int n => inferInstanceAs (Decidable (n.natAbs < 2 ^ 53))
  | .float _ => .isFalse id
  | .missing | .bool _ | .str _ | .date _ => .isTrue trivial

/-- The kinds of values that are not nested. -/
inductive Scalar where
  | integer
  | string
  | bool
  deriving DecidableEq, Repr

/-- A value is a whole number of 64 bits, a string or a boolean. -/
inductive OfKind : Scalar → Json → Prop where
  | integer {n : Int} : (Number.int n).InRange → OfKind .integer (.number (.int n))
  | string {s : String} : OfKind .string (.string s)
  | bool {b : Bool} : OfKind .bool (.bool b)

theorem OfKind.inRange {kind : Scalar} {value : Json} (h : OfKind kind value) {n : Number}
    (is : value = .number n) : n.InRange := by
  cases h with
  | integer read => cases is; exact read
  | string => cases is
  | bool => cases is

namespace Filter

/-- A value equals its own key. -/
theorem equals_of_ofJson? {value : Json} {key : Key} (read : ∀ {n}, value = .number n → n.InRange)
    (keyed : Key.ofJson? value = some key) : equals value key.toJson = true := by
  cases value with
  | null | bool | string =>
      cases keyed
      simp [equals, Key.toJson, Json.same]
  | array | object => cases keyed
  | number n =>
      have finite := Number.isFinite_toFloat (read rfl)
      simp only [Key.ofJson?] at keyed
      cases whole : n.toInt? with
      | none =>
          rw [whole] at keyed
          cases keyed
          rw [Key.ofFloat, Key.toJson, Json.ofFloat, if_pos (isFinite_unsignedZero finite)]
          exact beq_unsignedZero finite
      | some i =>
          rw [whole] at keyed
          cases keyed
          cases n with
          | float x => cases whole
          | int m =>
              obtain ⟨rfl, -⟩ := Word64.fits?_eq_some_iff.mp whole
              exact Binary64.beq_self finite

/-- An exact key of an integer is the integer itself. -/
theorem int_of_exact {n : Int} {key : Key} (keyed : Key.ofJson? (.number (.int n)) = some key)
    (exact : key.Exact) : key = .int n := by
  simp only [Key.ofJson?, Number.toInt?] at keyed
  cases fits : Word64.fits? n with
  | none =>
      rw [fits] at keyed
      cases keyed
      exact exact.elim
  | some i =>
      rw [fits] at keyed
      cases keyed
      obtain ⟨rfl, -⟩ := Word64.fits?_eq_some_iff.mp fits
      rfl

/-- In a column of one kind, what equals the key of a value has that key. -/
theorem ofJson?_of_equals {kind : Scalar} {value other : Json} {key : Key}
    (hother : OfKind kind other) (keyed : Key.ofJson? other = some key) (exact : key.Exact)
    (hvalue : value = .null ∨ OfKind kind value) (h : equals value key.toJson = true) :
    Key.ofJson? value = some key := by
  cases hother with
  | integer =>
      obtain rfl := int_of_exact keyed exact
      rcases hvalue with rfl | hvalue
      · cases h
      cases hvalue with
      | integer read =>
          obtain rfl := Binary64.eq_of_beq_ofInt (Number.natAbs_le read) exact h
          exact keyed
  | string =>
      cases keyed
      rcases hvalue with rfl | hvalue
      · cases h
      cases hvalue
      simpa [equals, Key.toJson, Json.same, Key.ofJson?] using h
  | bool =>
      cases keyed
      rcases hvalue with rfl | hvalue
      · cases h
      cases hvalue
      simpa [equals, Key.toJson, Json.same, Key.ofJson?] using h

end Filter

end Rollup
