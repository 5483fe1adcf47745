import Rollup.Key
import Rollup.Proofs.Binary64.Rounding

/-! # The order of keys

Keys in range are totally ordered, and only equal keys compare as equal. Integers are taken against
floating-point numbers by the nearest one, so the order is transitive because rounding to it keeps
the order of integers.
-/

namespace Rollup.Key

open Binary64 (rank ofInt)

/-- What grouping produces: the integers among the keys have 64 bits. -/
def InRange : Key → Prop
  | .int i => Word64.Holds i
  | _ => True

instance : DecidablePred InRange := fun key => by
  cases key <;> unfold InRange <;> infer_instance

theorem inRange_of_ofJson? {value : Json} {key : Key} (h : ofJson? value = some key) :
    key.InRange := by
  cases value with
  | null | bool | string => cases h; trivial
  | array | object => cases h
  | number n =>
      cases n with
      | float x => cases h; trivial
      | int i =>
          simp only [ofJson?, Number.toInt?] at h
          cases fits : Word64.fits? i with
          | none => rw [fits] at h; cases h; trivial
          | some j =>
              rw [fits] at h
              cases h
              obtain ⟨rfl, holds⟩ := Word64.fits?_eq_some_iff.mp fits
              exact holds

/-- Only a null has the missing key. -/
theorem ofJson?_eq_missing {value : Json} : ofJson? value = some .missing ↔ value.isNull := by
  cases value with
  | number n =>
      simp only [ofJson?, Json.isNull]
      cases n.toInt? <;> simp [ofFloat]
  | _ => simp [ofJson?, Json.isNull]

theorem compare_swap (a b : Key) : (a.compare b).swap = b.compare a := by
  cases a <;> cases b <;>
    simp [compare, kindRank, Ordering.swap_then, Binary64.compareTotal_swap,
      ← Std.OrientedOrd.eq_swap]

theorem compare_self (a : Key) : a.compare a = .eq := by
  cases a <;> simp [compare, Binary64.compareTotal_eq_iff]

theorem eq_of_compare {a b : Key} (h : a.compare b = .eq) : a = b := by
  cases a <;> cases b <;>
    simp_all [compare, kindRank, Ordering.then_eq_eq, Binary64.compareTotal_eq_iff]
  exact Binary64.rank_injective h

theorem compare_eq_iff {a b : Key} : a.compare b = .eq ↔ a = b :=
  ⟨eq_of_compare, fun h => h ▸ compare_self a⟩

/-! ## Transitivity

Among numbers, a rule for each pair of forms says what it means to stand before. -/

theorem int_before_int {i j : Int} : (int i).compare (int j) = .lt ↔ i < j :=
  Int.compare_eq_lt

theorem int_before_float {i : Int} {y : Float} :
    (int i).compare (float y) = .lt ↔ rank (ofInt i) ≤ rank y := by
  show ((Ord.compare (rank (ofInt i)) (rank y)).then .lt) = .lt ↔ _
  simp [Ordering.then_eq_lt, Int.compare_eq_lt, le_iff_lt_or_eq]

theorem float_before_int {x : Float} {j : Int} :
    (float x).compare (int j) = .lt ↔ rank x < rank (ofInt j) := by
  show ((Ord.compare (rank x) (rank (ofInt j))).then .gt) = .lt ↔ _
  simp [Ordering.then_eq_lt, Int.compare_eq_lt]

theorem float_before_float {x y : Float} :
    (float x).compare (float y) = .lt ↔ rank x < rank y :=
  Int.compare_eq_lt

theorem bool_before_bool {x y : Bool} :
    (bool x).compare (bool y) = .lt ↔ Ord.compare x y = .lt :=
  Iff.rfl

theorem str_before_str {x y : String} :
    (str x).compare (str y) = .lt ↔ Ord.compare x y = .lt :=
  Iff.rfl

theorem date_before_date {x y : Calendar.Instant} :
    (date x).compare (date y) = .lt ↔ x < y :=
  Int.compare_eq_lt

theorem compare_of_kindRank_lt {a b : Key} (h : a.kindRank < b.kindRank) : a.compare b = .lt := by
  simp only [compare, Nat.compare_eq_lt.mpr h, Ordering.lt_then]

theorem kindRank_le_of_before {a b : Key} (h : a.compare b = .lt) : a.kindRank ≤ b.kindRank := by
  by_contra less
  have swapped := compare_swap b a
  rw [compare_of_kindRank_lt (Nat.lt_of_not_le less), h] at swapped
  cases swapped

private theorem int_before_trans {i : Int} {b c : Key} (hi : Word64.Holds i) (hb : b.InRange)
    (hc : c.InRange) (first : b.kindRank = 1) (second : c.kindRank = 1)
    (hab : (int i).compare b = .lt) (hbc : b.compare c = .lt) : (int i).compare c = .lt := by
  cases b <;> cases c <;> simp [kindRank] at first second
  case int.int j k =>
      rw [int_before_int] at *
      exact hab.trans hbc
  case int.float j z =>
      rw [int_before_int] at hab
      rw [int_before_float] at hbc ⊢
      have rounded : rank (ofInt i) ≤ rank (ofInt j) := Binary64.rank_ofInt_mono hi hb hab.le
      exact rounded.trans hbc
  case float.int y k =>
      rw [int_before_float] at hab
      rw [float_before_int] at hbc
      rw [int_before_int]
      by_contra less
      have rounded : rank (ofInt k) ≤ rank (ofInt i) :=
        Binary64.rank_ofInt_mono hc hi (Int.not_lt.mp less)
      exact absurd (hab.trans_lt hbc) (Int.not_lt.mpr rounded)
  case float.float y z =>
      rw [int_before_float] at hab ⊢
      rw [float_before_float] at hbc
      exact hab.trans hbc.le

private theorem float_before_trans {x : Float} {b c : Key} (hb : b.InRange) (hc : c.InRange)
    (first : b.kindRank = 1) (second : c.kindRank = 1)
    (hab : (float x).compare b = .lt) (hbc : b.compare c = .lt) : (float x).compare c = .lt := by
  cases b <;> cases c <;> simp [kindRank] at first second
  case int.int j k =>
      rw [float_before_int] at hab ⊢
      rw [int_before_int] at hbc
      have rounded : rank (ofInt j) ≤ rank (ofInt k) := Binary64.rank_ofInt_mono hb hc hbc.le
      exact hab.trans_le rounded
  case int.float j z =>
      rw [float_before_int] at hab
      rw [int_before_float] at hbc
      rw [float_before_float]
      exact hab.trans_le hbc
  case float.int y k =>
      rw [float_before_float] at hab
      rw [float_before_int] at hbc ⊢
      exact hab.trans hbc
  case float.float y z =>
      rw [float_before_float] at *
      exact hab.trans hbc

theorem before_trans {a b c : Key} (ha : a.InRange) (hb : b.InRange) (hc : c.InRange)
    (hab : a.compare b = .lt) (hbc : b.compare c = .lt) : a.compare c = .lt := by
  rcases (kindRank_le_of_before hab).lt_or_eq with less | first
  · exact compare_of_kindRank_lt (less.trans_le (kindRank_le_of_before hbc))
  rcases (kindRank_le_of_before hbc).lt_or_eq with less | second
  · exact compare_of_kindRank_lt (first ▸ less)
  cases a with
  | int i => exact int_before_trans ha hb hc first.symm (second ▸ first.symm) hab hbc
  | float x => exact float_before_trans hb hc first.symm (second ▸ first.symm) hab hbc
  | missing =>
      cases b <;> simp [kindRank] at first
      simp [compare] at hab
  | bool x =>
      cases b <;> simp [kindRank] at first
      cases c <;> simp [kindRank] at second
      rw [bool_before_bool] at *
      exact Std.TransCmp.lt_trans hab hbc
  | str x =>
      cases b <;> simp [kindRank] at first
      cases c <;> simp [kindRank] at second
      rw [str_before_str] at *
      exact Std.TransCmp.lt_trans hab hbc
  | date x =>
      cases b <;> simp [kindRank] at first
      cases c <;> simp [kindRank] at second
      rw [date_before_date] at *
      exact hab.trans hbc

theorem isLE_trans {a b c : Key} (ha : a.InRange) (hb : b.InRange) (hc : c.InRange)
    (hab : (a.compare b).isLE) (hbc : (b.compare c).isLE) : (a.compare c).isLE := by
  rcases Ordering.isLE_iff_eq_lt_or_eq_eq.mp hab with before | same
  · rcases Ordering.isLE_iff_eq_lt_or_eq_eq.mp hbc with later | same
    · exact Ordering.isLE_of_eq_lt (before_trans ha hb hc before later)
    · rw [← eq_of_compare same]
      exact hab
  · rw [eq_of_compare same]
    exact hbc

/-- Keys that ascend are told by what they are: there is one order for them. -/
theorem eq_of_ascending {keys keys' : List Key} (ascending : keys.Pairwise fun a b => a.compare b = .lt)
    (ascending' : keys'.Pairwise fun a b => a.compare b = .lt) (same : ∀ key, key ∈ keys ↔ key ∈ keys') :
    keys = keys' := by
  have distinct {a b : Key} (before : a.compare b = .lt) : a ≠ b := by
    rintro rfl
    rw [compare_self] at before
    cases before
  refine List.Perm.eq_of_pairwise ?_ ascending ascending'
    ((List.perm_ext_iff_of_nodup (ascending.imp distinct) (ascending'.imp distinct)).mpr same)
  intro a b _ _ before after
  rw [← compare_swap, before] at after
  cases after

end Rollup.Key
