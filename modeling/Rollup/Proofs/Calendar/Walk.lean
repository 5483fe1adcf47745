import Rollup.Bucketing.DateHistogram
import Rollup.Proofs.Calendar.Partition

/-! # Walking from start to start

From one start to a later one the next starts are taken, one after the other. Within the range no step
fails, so the walk meets every start between the two and ends at the later one; a limit stops it exactly
if the starts are more.
-/

namespace Rollup.Calendar.Interval

open DateHistogram (starts)

variable {interval : Interval}

/-- The starts of intervals from one instant to another. -/
noncomputable def startsBetween (interval : Interval) (first last : Instant) : Finset Instant :=
  (Finset.Icc first last).filter fun start => interval.floor start = some start

/-- The starts of so many intervals after that of a number, and its own. -/
def walk (interval : Interval) : Int → Nat → List Instant
  | n, 0 => [interval.startAt n]
  | n, count + 1 => interval.startAt n :: walk interval (n + 1) count

@[simp] theorem length_walk (n : Int) (count : Nat) : (interval.walk n count).length = count + 1 := by
  induction count generalizing n with
  | zero => rfl
  | succ count ih => rw [walk, List.length_cons, ih]

theorem head?_walk (n : Int) (count : Nat) :
    (interval.walk n count).head? = some (interval.startAt n) := by
  cases count <;> rfl

theorem mem_walk {n : Int} {count : Nat} {start : Instant} :
    start ∈ interval.walk n count ↔ ∃ m, n ≤ m ∧ m ≤ n + count ∧ start = interval.startAt m := by
  induction count generalizing n with
  | zero =>
      rw [walk, List.mem_singleton]
      constructor
      · rintro rfl
        exact ⟨n, by omega, by omega, rfl⟩
      · rintro ⟨m, least, most, rfl⟩
        rw [show m = n by omega]
  | succ count ih =>
      rw [walk, List.mem_cons, ih]
      constructor
      · rintro (rfl | ⟨m, least, most, rfl⟩)
        · exact ⟨n, by omega, by omega, rfl⟩
        · exact ⟨m, by omega, by omega, rfl⟩
      · rintro ⟨m, least, most, rfl⟩
        rcases least.eq_or_lt with rfl | later
        · exact .inl rfl
        · exact .inr ⟨m, by omega, by omega, rfl⟩

theorem getLast?_walk (n : Int) (count : Nat) :
    (interval.walk n count).getLast? = some (interval.startAt (n + count)) := by
  induction count generalizing n with
  | zero => simp [walk]
  | succ count ih =>
      rw [walk, List.getLast?_cons, ih, Option.getD_some]
      congr 2
      omega

theorem walk_ascends (positive : interval.Positive) (n : Int) (count : Nat) :
    (interval.walk n count).Pairwise (· < ·) := by
  induction count generalizing n with
  | zero => exact List.pairwise_singleton _ _
  | succ count ih =>
      refine List.pairwise_cons.mpr ⟨fun start member => ?_, ih (n + 1)⟩
      obtain ⟨m, least, -, rfl⟩ := mem_walk.mp member
      exact startAt_strictMono positive (by omega)

/-! ## Within the range -/

section Within

variable (positive : interval.Positive) {n : Int} {count : Nat}
  (first : interval.InRange (interval.startAt n))
  (last : interval.InRange (interval.startAt (n + count)))

include positive first last

theorem inRange_walk {m : Int} (least : n ≤ m) (most : m ≤ n + count) :
    interval.InRange (interval.startAt m) :=
  have mono := (startAt_strictMono positive).monotone
  inRange_between first last (mono least) (mono most)

theorem isChain_walk : (interval.walk n count).IsChain fun a b => interval.next a = some b := by
  induction count generalizing n with
  | zero => exact List.isChain_singleton _
  | succ count ih =>
      have second : interval.InRange (interval.startAt (n + 1)) :=
        inRange_walk positive first last (by omega) (by omega)
      refine List.isChain_cons.mpr ⟨fun next is => ?_, ih second ?_⟩
      · rw [head?_walk] at is
        cases is
        exact next_of_inRange first second
      · rwa [show n + 1 + (count : Int) = n + (count + 1 : Nat) by omega]

/-- All starts are met. -/
theorem toFinset_walk : (interval.walk n count).toFinset =
    interval.startsBetween (interval.startAt n) (interval.startAt (n + count)) := by
  have order {m k : Int} : interval.startAt m ≤ interval.startAt k ↔ m ≤ k :=
    (startAt_strictMono positive).le_iff_le
  ext start
  rw [List.mem_toFinset, mem_walk, startsBetween, Finset.mem_filter, Finset.mem_Icc,
    floor_eq_self_iff positive]
  constructor
  · rintro ⟨m, least, most, rfl⟩
    exact ⟨⟨order.mpr least, order.mpr most⟩, inRange_walk positive first last least most, m, rfl⟩
  · rintro ⟨⟨least, most⟩, -, m, rfl⟩
    exact ⟨m, order.mp least, order.mp most, rfl⟩

/-- The limit aside a walk ends by itself: after the last start there is no next one, or it lies beyond
the last. -/
theorem starts_eq_walk (limit : Nat) :
    starts interval (interval.startAt (n + count)) limit (some (interval.startAt n)) =
      if count + 1 ≤ limit then some (interval.walk n count) else none := by
  induction count generalizing n limit with
  | zero =>
      cases limit with
      | zero => simp [starts]
      | succ limit =>
          have after : starts interval (interval.startAt n) limit (interval.next (interval.startAt n)) =
              some [] := by
            cases next : interval.next (interval.startAt n) with
            | none => cases limit <;> rfl
            | some stop =>
                have beyond : ¬ stop ≤ interval.startAt n := by
                  rw [next_startAt next, not_le]
                  exact startAt_strictMono positive (lt_add_one n)
                cases limit <;> simp [starts, beyond]
          simp [starts, walk, after]
  | succ count ih =>
      have later : interval.startAt n ≤ interval.startAt (n + (count + 1 : Nat)) :=
        (startAt_strictMono positive).monotone (by omega)
      have second : interval.InRange (interval.startAt (n + 1)) :=
        inRange_walk positive first last (by omega) (by omega)
      cases limit with
      | zero => rw [starts, if_pos later, if_neg (Nat.not_succ_le_zero _)]
      | succ limit =>
          have number : n + 1 + (count : Int) = n + (count + 1 : Nat) := by omega
          have rest := ih second (by rwa [number]) limit
          rw [number] at rest
          rw [starts, if_pos later, next_of_inRange first second, rest]
          by_cases enough : count + 1 ≤ limit <;> simp [enough, walk]

end Within

/-! ## Chains -/

/-- All starts from the first to the last, each the next of the one before. A walk from the first finds
them and ends, whatever limit there is above their number. -/
structure Chain (interval : Interval) (first last : Instant) (dates : List Instant) : Prop where
  begins : dates.head? = some first
  ends : dates.getLast? = some last
  next : dates.IsChain fun a b => interval.next a = some b
  ascending : dates.Pairwise (· < ·)
  all : dates.toFinset = interval.startsBetween first last
  walked : ∀ limit, starts interval last limit (some first) =
    if dates.length ≤ limit then some dates else none

theorem Chain.length {first last : Instant} {dates : List Instant}
    (chain : interval.Chain first last dates) :
    dates.length = (interval.startsBetween first last).card := by
  rw [← chain.all, List.toFinset_card_of_nodup (chain.ascending.imp ne_of_lt)]

/-- Starts are joined by a chain. -/
theorem exists_chain (positive : interval.Positive) {first last : Instant}
    (begins : interval.floor first = some first) (ends : interval.floor last = some last)
    (le : first ≤ last) : ∃ dates, interval.Chain first last dates := by
  obtain ⟨low, n, rfl⟩ := (floor_eq_self_iff positive).mp begins
  obtain ⟨high, m, rfl⟩ := (floor_eq_self_iff positive).mp ends
  have later : n ≤ m := (startAt_strictMono positive).le_iff_le.mp le
  obtain ⟨count, rfl⟩ := Int.le.dest later
  refine ⟨interval.walk n count, head?_walk n count, getLast?_walk n count,
    isChain_walk positive low high, walk_ascends positive n count, toFinset_walk positive low high, ?_⟩
  intro limit
  rw [starts_eq_walk positive low high, length_walk]

end Rollup.Calendar.Interval
