import Rollup.Proofs.Key.Order

/-! # Keys told apart

Grouping tells keys apart by their order, and counting does so by equality and by hashes. All three agree:
between keys in range the order is total and transitive, the keys that it leaves undecided are those that are
equal, and equal keys give a hasher the same parts.
-/

namespace Rollup.Key

/-- A part of a key, as a hasher takes it. -/
inductive Part where
  /-- Which kind of key it is. -/
  | kind (number : Nat)
  | bool (value : Bool)
  | whole (value : Int)
  | bits (pattern : UInt64)
  | text (value : String)
  deriving DecidableEq, Repr

/-- What a hasher takes of a key: its kind, and then what it holds. Integers and dates hold the same, so that
only their kinds differ. -/
def parts : Key → List Part
  | .missing => [.kind 0]
  | .bool b => [.kind 1, .bool b]
  | .int i => [.kind 2, .whole i]
  | .float x => [.kind 3, .bits x.toBits]
  | .str s => [.kind 4, .text s]
  | .date i => [.kind 5, .whole i]

/-- The state of a hasher after a key. -/
def digest {σ : Type} (feed : σ → Part → σ) (state : σ) (key : Key) : σ := key.parts.foldl feed state

/-- Equality kind by kind. Floating-point numbers are equal if they have the same bits. -/
def same : Key → Key → Bool
  | .missing, .missing => true
  | .bool x, .bool y => x == y
  | .int i, .int j => i == j
  | .float x, .float y => x.toBits == y.toBits
  | .str s, .str t => s == t
  | .date i, .date j => i == j
  | _, _ => false

/-- How one key stands to another. -/
def Stands (a b : Key) : Ordering → Prop
  | .lt => a.compare b = .lt
  | .eq => a.same b
  | .gt => b.compare a = .lt

variable {a b c : Key}

theorem same_iff : a.same b ↔ a = b := by
  cases a <;> cases b <;> simp [same]
  exact ⟨Binary64.toBits_injective, congrArg Float.toBits⟩

theorem same_eq_beq (a b : Key) : a.same b = (a == b) := by
  rw [Bool.eq_iff_iff, same_iff, beq_iff_eq]

theorem parts_injective (h : a.parts = b.parts) : a = b := by
  cases a <;> cases b <;> simp_all [parts]
  exact Binary64.toBits_injective h

/-- A key stands to another as comparing says, and in no other way. -/
theorem stands_iff {ordering : Ordering} : a.Stands b ordering ↔ a.compare b = ordering := by
  cases ordering with
  | lt => exact Iff.rfl
  | eq => exact same_iff.trans compare_eq_iff.symm
  | gt =>
      show b.compare a = .lt ↔ _
      rw [← compare_swap, Ordering.swap_eq_lt]

/-- The order of keys is lawful. Of two keys either the first comes before the second, or they are equal, or
the second comes before the first, and no two of these are so. The order is transitive. Keys that compare as
equal are equal, kind by kind, and just such keys give a hasher the same parts, so that they leave every
hasher in the same state. -/
theorem compare_lawful (ha : a.InRange) (hb : b.InRange) (hc : c.InRange) :
    (∃! ordering, a.Stands b ordering) ∧ a.Stands b (a.compare b) ∧
      (a.compare b = .lt → b.compare c = .lt → a.compare c = .lt) ∧
      ((a.compare b).isLE → (b.compare c).isLE → (a.compare c).isLE) ∧
      (a.compare b = .eq ↔ a == b) ∧ (a == b) = a.same b ∧ (a == b ↔ a.parts = b.parts) ∧
      (a == b → ∀ {σ : Type} (feed : σ → Part → σ) (state : σ), a.digest feed state = b.digest feed state) := by
  have equal : a == b ↔ a = b := beq_iff_eq
  refine ⟨⟨a.compare b, stands_iff.mpr rfl, fun other stands => ?_⟩, stands_iff.mpr rfl,
    before_trans ha hb hc, isLE_trans ha hb hc, ?_, (same_eq_beq a b).symm, ?_, ?_⟩
  · exact (stands_iff.mp stands).symm
  · rw [equal]
    exact compare_eq_iff
  · rw [equal]
    exact ⟨congrArg parts, parts_injective⟩
  · intro same σ feed state
    rw [equal.mp same]

/-- Two integers that are rounded to one number keep their own order, and both stand before that number. -/
theorem compare_lawful_rounded :
    Binary64.ofInt 9007199254740993 = Binary64.ofInt 9007199254740992 ∧
      (int 9007199254740992).compare (int 9007199254740993) = .lt ∧
      (int 9007199254740993).compare (float (Binary64.ofInt 9007199254740992)) = .lt ∧
      (int 9007199254740992).compare (float (Binary64.ofInt 9007199254740992)) = .lt := by
  have first : (int 9007199254740992).compare (int 9007199254740993) = .lt := by decide
  have second :
      (int 9007199254740993).compare (float (Binary64.ofInt 9007199254740992)) = .lt := by decide +kernel
  obtain ⟨-, -, trans, -⟩ := compare_lawful (a := int 9007199254740992) (b := int 9007199254740993)
    (c := float (Binary64.ofInt 9007199254740992)) (by decide) (by decide) trivial
  exact ⟨by decide +kernel, first, second, trans first second⟩

end Rollup.Key
