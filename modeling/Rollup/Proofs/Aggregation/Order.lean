import Rollup.Aggregation.Build
import Rollup.Proofs.Key.Order

/-! # The order of buckets

An order sees three things of a bucket: its key, its count and the numbers that can be read from its
metrics. Between keys in range every order is transitive and total, and it leaves only buckets of
one key undecided.
-/

namespace Rollup

/-- What an order sees of a bucket. -/
structure Seen where
  key : Key
  count : Nat
  number? : PropertyPath → Option Float

/-- Compare numbers; what has none comes last in either direction. -/
def compareNumbers (descending : Bool) (a b : Option Float) : Ordering :=
  match a, b with
  | some x, some y => directed descending (Binary64.compareTotal x y)
  | some _, none => .lt
  | none, some _ => .gt
  | none, none => .eq

/-- Compare by one clause. -/
def OrderClause.compareSeen (clause : OrderClause) (a b : Seen) : Ordering :=
  match clause.target with
  | .count => directed clause.descending (Ord.compare a.count b.count)
  | .key => directed clause.descending (a.key.compare b.key)
  | .metric path => compareNumbers clause.descending (a.number? path) (b.number? path)

/-- Compare by each clause in turn, and at last by key. -/
def BucketOrder.compareSeen : BucketOrder → Seen → Seen → Ordering
  | [], a, b => a.key.compare b.key
  | clause :: clauses, a, b => (clause.compareSeen a b).then (BucketOrder.compareSeen clauses a b)

def Candidate.seen {ι : Type} (candidate : Candidate ι) : Seen :=
  { key := candidate.key, count := candidate.count, number? := (candidate.number? ·) }

theorem compare_eq_compareSeen {ι : Type} (order : BucketOrder) (a b : Candidate ι) :
    order.compare a b = order.compareSeen a.seen b.seen := by
  induction order with
  | nil => rfl
  | cons clause clauses ih =>
      have first : clause.compare a b = clause.compareSeen a.seen b.seen := by
        obtain ⟨target, descending⟩ := clause
        cases target <;> rfl
      rw [BucketOrder.compare, BucketOrder.compareSeen, first, ih]

/-! ## Laws -/

section Laws

open Std

variable {α β : Type} (cmp : α → α → Ordering) [TransCmp cmp]

theorem transCmp_on (f : β → α) : TransCmp fun a b => cmp (f a) (f b) where
  eq_swap := OrientedCmp.eq_swap
  isLE_trans := TransCmp.isLE_trans

theorem transCmp_directed (descending : Bool) : TransCmp fun a b => directed descending (cmp a b) := by
  cases descending with
  | false => exact ‹TransCmp cmp›
  | true =>
      have flipped : (fun a b => directed true (cmp a b)) = fun a b => cmp b a := by
        funext a b
        exact OrientedCmp.eq_swap.symm
      rw [flipped]
      infer_instance

theorem transCmp_compareTotal : TransCmp Binary64.compareTotal :=
  transCmp_on Ord.compare Binary64.rank

theorem transCmp_compareNumbers (descending : Bool) : TransCmp (compareNumbers descending) := by
  have numbers := transCmp_compareTotal
  have directed := transCmp_directed Binary64.compareTotal descending
  refine { eq_swap := ?_, isLE_trans := ?_ }
  · intro a b
    cases a <;> cases b <;> try rfl
    exact directed.eq_swap
  · intro a b c hab hbc
    cases a <;> cases b <;> cases c <;> try trivial
    exact directed.isLE_trans hab hbc

/-- What an order sees of buckets whose keys are in range. -/
abbrev SeenInRange := { seen : Seen // seen.key.InRange }

theorem transCmp_key : TransCmp fun a b : SeenInRange => a.1.key.compare b.1.key where
  eq_swap {a b} := (Key.compare_swap b.1.key a.1.key).symm
  isLE_trans {a b c} := Key.isLE_trans a.2 b.2 c.2

theorem transCmp_clause (clause : OrderClause) :
    TransCmp fun a b : SeenInRange => clause.compareSeen a.1 b.1 := by
  obtain ⟨target, descending⟩ := clause
  cases target with
  | count =>
      have counts := transCmp_on Ord.compare fun a : SeenInRange => a.1.count
      exact transCmp_directed _ descending
  | key =>
      have keys := transCmp_key
      exact transCmp_directed _ descending
  | metric path =>
      have numbers := transCmp_compareNumbers descending
      exact transCmp_on (compareNumbers descending) fun a : SeenInRange => a.1.number? path

theorem transCmp_order (order : BucketOrder) :
    TransCmp fun a b : SeenInRange => order.compareSeen a.1 b.1 := by
  induction order with
  | nil => exact transCmp_key
  | cons clause clauses ih =>
      have first := transCmp_clause clause
      have lexicographic : TransCmp (compareLex (fun a b : SeenInRange => clause.compareSeen a.1 b.1)
        fun a b => BucketOrder.compareSeen clauses a.1 b.1) := inferInstance
      exact lexicographic

end Laws

theorem key_eq_of_compareSeen {order : BucketOrder} {a b : Seen}
    (h : order.compareSeen a b = .eq) : a.key = b.key := by
  induction order with
  | nil => exact Key.eq_of_compare h
  | cons clause clauses ih => exact ih (Ordering.then_eq_eq.mp h).2

/-- Sorting leaves no two buckets in the wrong order, nor undecided if their keys are distinct. -/
theorem pairwise_sorted {α : Type} (order : BucketOrder) (see : α → Seen) {items : List α}
    (inRange : ∀ item ∈ items, (see item).key.InRange)
    (distinct : (items.map fun item => (see item).key).Nodup) :
    (items.mergeSort fun a b => (order.compareSeen (see a) (see b)).isLE).Pairwise
      fun a b => order.compareSeen (see a) (see b) = .lt := by
  -- The order is lawful between keys in range, so the items are sorted as members of a subtype.
  have laws := transCmp_order order
  let ranged : List { item : α // (see item).key.InRange } := items.pmap Subtype.mk inRange
  let seen (item : { item : α // (see item).key.InRange }) : SeenInRange := ⟨see item.1, item.2⟩
  have unranged : ranged.map (·.1) = items := by
    simp [ranged, List.map_pmap]
  have sorted : (items.mergeSort fun a b => (order.compareSeen (see a) (see b)).isLE).Pairwise
      fun a b => (order.compareSeen (see a) (see b)).isLE := by
    conv => arg 2; rw [← unranged]
    rw [← List.map_mergeSort (r := fun a b => (order.compareSeen (see a.1) (see b.1)).isLE)
      (fun _ _ _ _ => rfl), List.pairwise_map]
    apply List.pairwise_mergeSort
    · intro a b c
      exact (transCmp_on (fun a b : SeenInRange => order.compareSeen a.1 b.1) seen).isLE_trans
    · intro a b
      have swapped : order.compareSeen (see b.1) (see a.1) =
          (order.compareSeen (see a.1) (see b.1)).swap :=
        (transCmp_on (fun a b : SeenInRange => order.compareSeen a.1 b.1) seen).eq_swap
      rw [swapped]
      cases order.compareSeen (see a.1) (see b.1) <;> rfl
  have keys : (items.mergeSort fun a b => (order.compareSeen (see a) (see b)).isLE).Pairwise
      fun a b => (see a).key ≠ (see b).key := by
    rw [← List.pairwise_map (f := fun item => (see item).key)]
    exact ((List.mergeSort_perm items _).map _).nodup_iff.mpr distinct
  refine sorted.imp₂ (fun a b le different => ?_) keys
  rcases Ordering.isLE_iff_eq_lt_or_eq_eq.mp le with before | same
  · exact before
  · exact absurd (key_eq_of_compareSeen same) different

end Rollup
