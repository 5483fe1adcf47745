import Rollup.Aggregation.Build
import Rollup.Proofs.Success

/-! # What a computation costs

A computation that draws on the budget of buckets is a computation without one that has a price: it
succeeds exactly if the other one does and the price can be paid. What has been created before it
never matters otherwise.
-/

namespace Rollup

variable {α β γ : Type} {limit : Nat}

/-- Within a limit, work is a computation whose results have a price. -/
def Costs (limit : Nat) (work : BuildM α) (x : Except Error α) (price : α → Nat) : Prop :=
  ∀ created ≤ limit, ∀ a created', work.run created = .ok (a, created') ↔
    x = .ok a ∧ created' = created + price a ∧ created' ≤ limit

namespace Costs

theorem pure {a : α} {price : α → Nat} (free : price a = 0) :
    Costs limit (pure a) (.ok a) price := by
  intro created within b created'
  rw [run_pure_eq_ok, Except.ok.injEq]
  constructor
  · rintro ⟨rfl, rfl⟩
    exact ⟨rfl, by omega, within⟩
  · rintro ⟨rfl, rfl, -⟩
    exact ⟨rfl, by omega⟩

theorem error {e : Error} {price : α → Nat} :
    Costs limit (throw e : BuildM α) (.error e) price := by
  intro created within a created'
  constructor
  · intro h
    cases h
  · rintro ⟨⟨⟩, -⟩

theorem lift {x : Except Error α} {price : α → Nat} (free : ∀ a, x = .ok a → price a = 0) :
    Costs limit (liftM x) x price := by
  intro created within a created'
  rw [run_liftM_eq_ok]
  constructor
  · rintro ⟨computed, rfl⟩
    rw [free a computed]
    exact ⟨computed, rfl, within⟩
  · rintro ⟨computed, rfl, -⟩
    rw [free a computed]
    exact ⟨computed, rfl⟩

theorem bind {work : BuildM α} {x : Except Error α} {first : α → Nat} {f : α → BuildM β}
    {g : α → Except Error β} {price : β → Nat} (second : α → β → Nat)
    (head : Costs limit work x first) (rest : ∀ a, x = .ok a → Costs limit (f a) (g a) (second a))
    (total : ∀ a b, x = .ok a → g a = .ok b → price b = first a + second a b) :
    Costs limit (work >>= f) (x >>= g) price := by
  intro created within b created'
  rw [run_bind_eq_ok, bind_eq_ok]
  constructor
  · rintro ⟨a, middle, ran, ran'⟩
    obtain ⟨computed, rfl, enough⟩ := (head created within a middle).mp ran
    obtain ⟨computed', rfl, enough'⟩ := (rest a computed _ enough b created').mp ran'
    exact ⟨⟨a, computed, computed'⟩, by rw [total a b computed computed']; omega, enough'⟩
  · rintro ⟨⟨a, computed, computed'⟩, rfl, enough⟩
    rw [total a b computed computed'] at enough ⊢
    have first_enough : created + first a ≤ limit := by omega
    refine ⟨a, created + first a, (head created within a _).mpr ⟨computed, rfl, first_enough⟩, ?_⟩
    exact (rest a computed _ first_enough b _).mpr ⟨computed', by omega, enough⟩

/-- What is computed without the budget comes first. -/
theorem free {x : Except Error α} {f : α → BuildM β} {g : α → Except Error β} {price : β → Nat}
    (rest : ∀ a, x = .ok a → Costs limit (f a) (g a) price) :
    Costs limit (liftM x >>= f) (x >>= g) price := by
  have head : Costs limit (liftM x) x fun _ => 0 := lift fun _ _ => rfl
  exact bind (fun _ => price) head rest fun _ _ _ _ => (Nat.zero_add _).symm

/-- What is made of a result at no further cost comes last. -/
theorem andReturn {work : BuildM α} {x : Except Error α} {first : α → Nat} {f : α → β}
    {price : β → Nat} (head : Costs limit work x first) (same : ∀ a, price (f a) = first a) :
    Costs limit (do return f (← work)) (do return f (← x)) price :=
  bind (fun _ _ => 0) head (fun _ _ => pure rfl) fun a _ _ h => by
    cases h
    exact same a

theorem mapM {f : α → BuildM β} {g : α → Except Error β} {price : β → Nat} {items : List α}
    (each : ∀ item ∈ items, Costs limit (f item) (g item) price) :
    Costs limit (items.mapM f) (items.mapM g) fun results => (results.map price).sum := by
  induction items with
  | nil => exact .pure rfl
  | cons item rest ih =>
      rw [List.forall_mem_cons] at each
      rw [List.mapM_cons, List.mapM_cons]
      refine bind (fun _ results => ((results.drop 1).map price).sum) each.1 (fun b _ => ?_) ?_
      · exact andReturn (ih each.2) fun bs => rfl
      · rintro b results - h
        obtain ⟨bs, -, ⟨⟩⟩ := bind_eq_ok.mp h
        rfl

theorem reserve (limits : Limits) (count : Nat) :
    Costs limits.buckets (reserve limits count) (.ok ()) fun _ => count := by
  intro created within a created'
  have run : (Rollup.reserve limits count).run created =
      if limits.buckets < created + count then .error (.tooManyBuckets limits.buckets)
      else .ok ((), created + count) := by
    unfold Rollup.reserve
    simp only [StateT.run_bind, StateT.run_get, pure_bind]
    split
    · rfl
    · rfl
  rw [run]
  by_cases enough : created + count ≤ limits.buckets
  · rw [if_neg (Nat.not_lt.mpr enough)]
    constructor
    · rintro ⟨⟩
      exact ⟨rfl, rfl, enough⟩
    · rintro ⟨-, rfl, -⟩
      rfl
  · rw [if_pos (Nat.not_le.mp enough)]
    constructor
    · rintro ⟨⟩
    · rintro ⟨-, rfl, fits⟩
      exact absurd fits enough

end Costs

end Rollup
