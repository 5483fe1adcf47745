import Rollup.Proofs.Aggregation.Order

/-! # One way to sort

Whatever its clauses are and whatever numbers they read, an order of buckets is total and transitive,
and two buckets are undecided only if they have one key. So there is one way to sort buckets whose keys
are distinct, from wherever they start.
-/

namespace Rollup

variable {ι : Type}

namespace BucketOrder

/-- How an order stands between three buckets. -/
structure Lawful (order : BucketOrder) (a b c : Candidate ι) : Prop where
  key_eq : order.compare a b = .eq → a.key = b.key
  swap : order.compare b a = (order.compare a b).swap
  lt_trans : order.compare a b = .lt → order.compare b c = .lt → order.compare a c = .lt
  isLE_trans : (order.compare a b).isLE → (order.compare b c).isLE → (order.compare a c).isLE
  /-- Buckets that are undecided stand to any other alike. -/
  congr : order.compare a b = .eq → order.compare a c = order.compare b c

/-- The same buckets, none of them right after one that comes later. -/
structure Sorts (order : BucketOrder) (items sorted : List (Candidate ι)) : Prop where
  perm : sorted.Perm items
  ordered : sorted.Pairwise fun a b => order.compare a b ≠ .gt

theorem lawful_of_inRange (order : BucketOrder) {a b c : Candidate ι} (ha : a.key.InRange) (hb : b.key.InRange)
    (hc : c.key.InRange) : order.Lawful a b c := by
  let cmp (a b : SeenInRange) : Ordering := order.compareSeen a.1 b.1
  have laws : Std.TransCmp cmp := transCmp_order order
  let a' : SeenInRange := ⟨a.seen, ha⟩
  let b' : SeenInRange := ⟨b.seen, hb⟩
  let c' : SeenInRange := ⟨c.seen, hc⟩
  constructor
  · intro same
    rw [compare_eq_compareSeen] at same
    exact key_eq_of_compareSeen same
  all_goals simp only [compare_eq_compareSeen]
  · exact laws.eq_swap (a := b') (b := a')
  · exact @Std.TransCmp.lt_trans _ cmp laws a' b' c'
  · exact laws.isLE_trans (a := a') (b := b') (c := c')
  · exact @Std.TransCmp.congr_left _ cmp laws a' b' c'

variable {order : BucketOrder} {items sorted sorted' : List (Candidate ι)}

/-- Sorting by the order sorts. -/
theorem sorts_mergeSort (order : BucketOrder) (inRange : ∀ item ∈ items, item.key.InRange)
    (distinct : (items.map (·.key)).Nodup) :
    order.Sorts items (items.mergeSort fun a b => (order.compare a b).isLE) where
  perm := List.mergeSort_perm items _
  ordered := by
    simp only [compare_eq_compareSeen]
    refine (pairwise_sorted order Candidate.seen inRange distinct).imp ?_
    intro a b before after
    rw [before] at after
    cases after

/-- Buckets with distinct keys that are sorted are sorted in one way. -/
theorem Sorts.unique (inRange : ∀ item ∈ items, item.key.InRange)
    (distinct : (items.map (·.key)).Nodup) (sorts : order.Sorts items sorted)
    (sorts' : order.Sorts items sorted') : sorted = sorted' := by
  refine List.Perm.eq_of_pairwise ?_ sorts.ordered sorts'.ordered (sorts.perm.trans sorts'.perm.symm)
  intro a b ha hb before after
  have ha : a ∈ items := sorts.perm.subset ha
  have hb : b ∈ items := sorts'.perm.subset hb
  have laws := order.lawful_of_inRange (inRange a ha) (inRange b hb) (inRange a ha)
  have undecided : order.compare a b = .eq := by
    rw [laws.swap] at after
    cases h : order.compare a b <;> simp_all
  exact List.inj_on_of_nodup_map distinct ha hb (laws.key_eq undecided)

/-- Every order of buckets is lawful, whatever its clauses read, and buckets with distinct keys are sorted
in exactly one way: whoever sorts them, from whatever order they are given in, has the list that sorting
for an answer has. -/
theorem sorts_iff (order : BucketOrder) {a b c : Candidate ι} (ha : a.key.InRange) (hb : b.key.InRange)
    (hc : c.key.InRange) (inRange : ∀ item ∈ items, item.key.InRange)
    (distinct : (items.map (·.key)).Nodup) :
    order.Lawful a b c ∧ ∀ given, given.Perm items → ∀ sorted,
      order.Sorts given sorted ↔ sorted = items.mergeSort fun a b => (order.compare a b).isLE := by
  refine ⟨order.lawful_of_inRange ha hb hc, fun given perm sorted => ?_⟩
  have sorts := sorts_mergeSort order inRange distinct
  constructor
  · intro sorts'
    exact Sorts.unique inRange distinct ⟨sorts'.perm.trans perm, sorts'.ordered⟩ sorts
  · rintro rfl
    exact ⟨sorts.perm.trans perm.symm, sorts.ordered⟩

/-- Airports with their delays. One has none, and one has what is no number. -/
def airports : List (Candidate Nat) :=
  [⟨.str "ams", [0], []⟩,
   ⟨.str "bru", [1], [("delay", .single (some (-0.0)))]⟩,
   ⟨.str "cdg", [2], [("delay", .single (some 0.0))]⟩,
   ⟨.str "dub", [3], [("delay", .single (some Binary64.infinity))]⟩,
   ⟨.str "edi", [4], [("delay", .single (some Binary64.nan))]⟩]

def longestFirst : BucketOrder := [⟨.metric ⟨"delay", none⟩, true⟩]

theorem sorts_iff_airports :
    (∀ item ∈ airports, item.key.InRange) ∧ (airports.map (·.key)).Nodup ∧
      longestFirst.Lawful airports[0] airports[1] airports[2] ∧
      ∀ sorted, longestFirst.Sorts airports sorted ↔ sorted = airports.reverse := by
  have inRange : ∀ item ∈ airports, item.key.InRange := by decide
  have distinct : (airports.map (·.key)).Nodup := by decide
  have strings : airports[0].key.InRange ∧ airports[1].key.InRange ∧ airports[2].key.InRange := by
    decide
  obtain ⟨lawful, sorts_iff⟩ := sorts_iff longestFirst strings.1 strings.2.1 strings.2.2
    inRange distinct
  have reversed : longestFirst.Sorts airports airports.reverse :=
    ⟨airports.reverse_perm, by decide +kernel⟩
  refine ⟨inRange, distinct, lawful, fun sorted => ?_⟩
  rw [sorts_iff _ (.refl _) _, ← (sorts_iff _ (.refl _) _).mp reversed]

end BucketOrder

end Rollup
