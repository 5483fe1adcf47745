import Mathlib

/-! # Computations that succeed

A chain of computations succeeds exactly if each step does, and going through a list succeeds
exactly if every item does.
-/

namespace Rollup

variable {ε α β γ σ : Type}

theorem bind_eq_ok {x : Except ε α} {f : α → Except ε β} {b : β} :
    x >>= f = .ok b ↔ ∃ a, x = .ok a ∧ f a = .ok b := by
  cases x with
  | error e => simp [bind, Except.bind]
  | ok a => simp [bind, Except.bind]

theorem check_eq_ok {x : Except ε Unit} {f : Unit → Except ε β} {b : β} :
    x >>= f = .ok b ↔ x = .ok () ∧ f () = .ok b := by
  rw [bind_eq_ok]
  exact ⟨fun ⟨(), h⟩ => h, fun h => ⟨(), h⟩⟩

/-- What is refused for one reason only, and answered otherwise, is refused exactly for it. -/
theorem eq_error_iff {x : Except ε β} {e : ε} {reason : Prop} (refused : reason → x = .error e)
    (answered : ¬ reason → ∃ b, x = .ok b) : x = .error e ↔ reason := by
  refine ⟨fun h => ?_, refused⟩
  by_contra none
  obtain ⟨b, same⟩ := answered none
  cases h.symm.trans same

theorem refuse_eq_ok {condition : Prop} [Decidable condition] {e : ε} {f : α → Except ε β}
    {x : Except ε β} {b : β} :
    (if condition then throw e >>= f else x) = .ok b ↔ ¬ condition ∧ x = .ok b := by
  by_cases h : condition <;> simp [h, throw, throwThe, MonadExceptOf.throw, bind, Except.bind]

theorem map_eq_ok {x : Except ε α} {f : α → β} {b : β} :
    f <$> x = .ok b ↔ ∃ a, x = .ok a ∧ f a = b := by
  cases x with
  | error e => simp [Functor.map, Except.map]
  | ok a => simp [Functor.map, Except.map]

/-- Results that are seen alike go on alike, if going on depends on what is seen. -/
theorem bind_congr_map {δ : Type} {x : Except ε α} {y : Except ε β} {v : α → γ} {w : β → γ}
    {f : α → Except ε δ} {g : β → Except ε δ} (alike : v <$> x = w <$> y)
    (same : ∀ a b, v a = w b → f a = g b) : x >>= f = y >>= g := by
  cases x <;> cases y <;> simp [Functor.map, Except.map] at alike
  · exact congrArg _ alike
  · exact same _ _ alike

theorem mapM_eq_ok {f : α → Except ε β} {xs : List α} {ys : List β} :
    xs.mapM f = .ok ys ↔ List.Forall₂ (fun x y => f x = .ok y) xs ys := by
  induction xs generalizing ys with
  | nil => cases ys <;> simp [pure, Except.pure]
  | cons x xs ih =>
      rw [List.mapM_cons, bind_eq_ok]
      constructor
      · rintro ⟨y, hy, h⟩
        obtain ⟨rest, hrest, h⟩ := bind_eq_ok.mp h
        cases h
        exact .cons hy (ih.mp hrest)
      · rintro (_ | ⟨hy, hrest⟩)
        exact ⟨_, hy, bind_eq_ok.mpr ⟨_, ih.mpr hrest, rfl⟩⟩

theorem forM_eq_ok {f : α → Except ε Unit} {xs : List α} :
    xs.forM f = .ok () ↔ ∀ x ∈ xs, f x = .ok () := by
  induction xs with
  | nil => simp [pure, Except.pure]
  | cons x xs ih =>
      rw [List.forM, check_eq_ok, ih, List.forall_mem_cons]

/-- Items that are seen alike, and computed alike from what is seen, give the same list. -/
theorem mapM_congr_map {δ : Type} {f : α → Except ε δ} {g : β → Except ε δ} {v : α → γ} {w : β → γ}
    {xs : List α} {ys : List β} (alike : xs.map v = ys.map w)
    (same : ∀ x y, v x = w y → f x = g y) : xs.mapM f = ys.mapM g := by
  induction xs generalizing ys with
  | nil =>
      cases ys with
      | nil => rfl
      | cons y ys => cases alike
  | cons x xs ih =>
      cases ys with
      | nil => cases alike
      | cons y ys =>
          simp only [List.map_cons, List.cons.injEq] at alike
          rw [List.mapM_cons, List.mapM_cons, same x y alike.1, ih alike.2]

/-- Computing values with their items, in order, is computing the values and pairing afterwards. -/
theorem mapM_beside {ι : Type} (f : α → Except ε β) (values : List (ι × α)) :
    (values.mapM fun value => do return (← f value.2, value.1)) =
      (fun results => results.zip (values.map (·.1))) <$> values.mapM fun value => f value.2 := by
  induction values with
  | nil => rfl
  | cons value rest ih =>
      rw [List.mapM_cons, List.mapM_cons, ih]
      cases f value.2 with
      | error e => rfl
      | ok result => cases rest.mapM fun value => f value.2 <;> rfl

theorem mapM_then (f : α → Except ε β) (g : β → γ) (items : List α) :
    (items.mapM fun item => do return g (← f item)) = List.map g <$> items.mapM f := by
  induction items with
  | nil => rfl
  | cons item rest ih =>
      rw [List.mapM_cons, List.mapM_cons, ih]
      cases f item with
      | error e => rfl
      | ok result => cases rest.mapM f <;> rfl

theorem exists_related {R : α → β → Prop} {xs : List α} {ys : List β} (h : List.Forall₂ R xs ys)
    {y : β} (member : y ∈ ys) : ∃ x ∈ xs, R x y := by
  induction h with
  | nil => cases member
  | cons related rest ih =>
      rcases List.mem_cons.mp member with rfl | later
      · exact ⟨_, List.mem_cons_self, related⟩
      · obtain ⟨x, hx, related⟩ := ih later
        exact ⟨x, List.mem_cons_of_mem _ hx, related⟩

theorem exists_forall₂ {R : α → β → Prop} {xs : List α} (each : ∀ x ∈ xs, ∃ y, R x y) :
    ∃ ys, List.Forall₂ R xs ys := by
  induction xs with
  | nil => exact ⟨[], .nil⟩
  | cons x xs ih =>
      obtain ⟨⟨y, related⟩, rest⟩ := List.forall_mem_cons.mp each
      obtain ⟨ys, rest⟩ := ih rest
      exact ⟨y :: ys, .cons related rest⟩

theorem forall₂_imp_of_mem {R S : α → β → Prop} {xs : List α} {ys : List β}
    (h : List.Forall₂ R xs ys) (sub : ∀ x ∈ xs, ∀ y, R x y → S x y) : List.Forall₂ S xs ys := by
  induction h with
  | nil => exact .nil
  | cons related _ ih =>
      rw [List.forall_mem_cons] at sub
      exact .cons (sub.1 _ related) (ih sub.2)

theorem map_eq_of_related {R : α → β → Prop} {xs : List α} {ys : List β}
    (h : List.Forall₂ R xs ys) {f : α → γ} {g : β → γ} (same : ∀ x y, R x y → g y = f x) :
    ys.map g = xs.map f := by
  induction h with
  | nil => rfl
  | cons related rest ih => rw [List.map_cons, List.map_cons, same _ _ related, ih]

theorem exists_result {f : α → Except ε β} {items : List α} {results : List β}
    (h : items.mapM f = .ok results) {item : α} (member : item ∈ items) :
    ∃ result ∈ results, f item = .ok result :=
  exists_related (mapM_eq_ok.mp h).flip member

theorem exists_item {f : α → Except ε β} {items : List α} {results : List β}
    (h : items.mapM f = .ok results) {result : β} (member : result ∈ results) :
    ∃ item ∈ items, f item = .ok result :=
  exists_related (mapM_eq_ok.mp h) member

theorem length_of_mapM {f : α → Except ε β} {items : List α} {results : List β}
    (h : items.mapM f = .ok results) : results.length = items.length :=
  (mapM_eq_ok.mp h).length_eq.symm

/-- Items in another order give the same results in another order. -/
theorem mapM_perm {f : α → Except ε β} {items items' : List α} {results : List β}
    (perm : items.Perm items') (h : items.mapM f = .ok results) :
    ∃ results', items'.mapM f = .ok results' ∧ results.Perm results' := by
  obtain ⟨results', each, same⟩ := List.perm_comp_forall₂ perm.symm (mapM_eq_ok.mp h)
  exact ⟨results', mapM_eq_ok.mpr each, same.symm⟩

/-- Items that are seen alike but for their order, and computed alike from what is seen, go on alike if
going on does not depend on the order of their results. -/
theorem bind_mapM_perm {δ ρ : Type} {R : ρ → ρ → Prop} {f : α → Except ε δ} {g : β → Except ε δ}
    {v : α → γ} {w : β → γ} {xs : List α} {ys : List β} {k k' : List δ → Except ε ρ}
    (alike : (xs.map v).Perm (ys.map w)) (same : ∀ x y, v x = w y → f x = g y)
    (rest : ∀ results results', results.Perm results' → ∀ r, k results = .ok r →
      ∃ r', k' results' = .ok r' ∧ R r r') {r : ρ} (h : xs.mapM f >>= k = .ok r) :
    ∃ r', ys.mapM g >>= k' = .ok r' ∧ R r r' := by
  have seen : List.Forall₂ (fun c y => c = w y) (ys.map w) ys :=
    List.forall₂_map_left_iff.mpr (List.forall₂_same.mpr fun _ _ => rfl)
  obtain ⟨zs, paired, reordered⟩ := List.perm_comp_forall₂ alike seen
  have matched : xs.map v = zs.map w := by
    rw [← List.forall₂_eq_eq_eq, List.forall₂_map_right_iff]
    exact paired
  rw [mapM_congr_map matched same] at h
  obtain ⟨results, each, h⟩ := bind_eq_ok.mp h
  obtain ⟨results', each', perm⟩ := mapM_perm reordered each
  obtain ⟨r', h', related⟩ := rest results results' perm r h
  exact ⟨r', bind_eq_ok.mpr ⟨results', each', h'⟩, related⟩

/-- What each step preserves holds at the end. -/
theorem foldlM_invariant {P : β → Prop} {f : β → α → Except ε β} {items : List α} {start last : β}
    (step : ∀ item ∈ items, ∀ b b', P b → f b item = .ok b' → P b') (first : P start)
    (h : items.foldlM f start = .ok last) : P last := by
  induction items generalizing start with
  | nil =>
      cases h
      exact first
  | cons item items ih =>
      obtain ⟨middle, head, rest⟩ := bind_eq_ok.mp h
      rw [List.forall_mem_cons] at step
      exact ih step.2 (step.1 _ _ first head) rest

/-! ## Computations with a state -/

theorem run_bind_eq_ok {x : StateT σ (Except ε) α} {f : α → StateT σ (Except ε) β} {s s' : σ}
    {b : β} :
    (x >>= f).run s = .ok (b, s') ↔
      ∃ a t, x.run s = .ok (a, t) ∧ (f a).run t = .ok (b, s') := by
  rw [StateT.run_bind, bind_eq_ok]
  simp

theorem run_pure_eq_ok {a b : α} {s s' : σ} :
    (pure a : StateT σ (Except ε) α).run s = .ok (b, s') ↔ a = b ∧ s = s' := by
  rw [StateT.run_pure]
  simp [pure, Except.pure]

theorem run_liftM_eq_ok {x : Except ε α} {s s' : σ} {a : α} :
    (liftM x : StateT σ (Except ε) α).run s = .ok (a, s') ↔ x = .ok a ∧ s = s' := by
  cases x <;> simp [StateT.run, liftM, monadLift, MonadLift.monadLift, StateT.lift, bind, Except.bind, pure, Except.pure]

theorem run_liftM_bind (x : Except ε α) (f : α → StateT σ (Except ε) β) (s : σ) :
    (liftM x >>= f).run s = x >>= fun a => (f a).run s := by
  cases x <;> rfl

/-! ## What goes wrong -/

/-- A computation fails if there is a fault, and then with one of the faults. -/
def FailsWith (x : Except ε α) (faults : ε → Prop) : Prop :=
  match x with
  | .ok _ => ∀ e, ¬ faults e
  | .error e => faults e

namespace FailsWith

theorem congr {x : Except ε α} {faults faults' : ε → Prop} (same : ∀ e, faults e ↔ faults' e)
    (h : FailsWith x faults) : FailsWith x faults' := by
  cases x with
  | error e => exact (same e).mp h
  | ok a => exact fun e fault => h e ((same e).mpr fault)

theorem bind {x : Except ε α} {f : α → Except ε β} {first second : ε → Prop}
    (head : FailsWith x first) (rest : ∀ a, x = .ok a → FailsWith (f a) second) :
    FailsWith (x >>= f) fun e => first e ∨ second e := by
  cases x with
  | error e => exact .inl head
  | ok a =>
      have rest := rest a rfl
      show FailsWith (f a) _
      cases h : f a with
      | error e =>
          rw [h] at rest
          exact .inr rest
      | ok b =>
          rw [h] at rest
          exact fun e fault => fault.elim (head e) (rest e)

theorem andReturn {x : Except ε α} {f : α → β} {faults : ε → Prop} (h : FailsWith x faults) :
    FailsWith (do return f (← x)) faults := by
  cases x with
  | error e => exact h
  | ok a => exact h

theorem mapM {f : α → Except ε β} {faults : α → ε → Prop} {items : List α}
    (each : ∀ item ∈ items, FailsWith (f item) (faults item)) :
    FailsWith (items.mapM f) fun e => ∃ item ∈ items, faults item e := by
  induction items with
  | nil => exact fun e ⟨item, member, _⟩ => by cases member
  | cons item rest ih =>
      rw [List.forall_mem_cons] at each
      rw [List.mapM_cons]
      refine (bind each.1 fun b _ => andReturn (ih each.2)).congr fun e => ?_
      simp

end FailsWith

/-- The errors of a computation are all of some kind. -/
def RaisesOnly (kind : ε → Prop) (x : Except ε α) : Prop :=
  ∀ e, x = .error e → kind e

namespace RaisesOnly

variable {kind : ε → Prop}

theorem ok {a : α} : RaisesOnly kind (.ok a : Except ε α) := nofun

theorem error {e : ε} (h : kind e) : RaisesOnly kind (.error e : Except ε α) := by
  rintro e ⟨⟩
  exact h

theorem imp {kind' : ε → Prop} (sub : ∀ e, kind e → kind' e) {x : Except ε α}
    (h : RaisesOnly kind x) : RaisesOnly kind' x :=
  fun e failed => sub e (h e failed)

theorem bind {x : Except ε α} {f : α → Except ε β} (head : RaisesOnly kind x)
    (rest : ∀ a, RaisesOnly kind (f a)) : RaisesOnly kind (x >>= f) := by
  cases x with
  | error e => exact error (head e rfl)
  | ok a => exact rest a

/-- Going on matters only with what was computed. -/
theorem bind_ok {x : Except ε α} {f : α → Except ε β} (head : RaisesOnly kind x)
    (rest : ∀ a, x = .ok a → RaisesOnly kind (f a)) : RaisesOnly kind (x >>= f) := by
  cases x with
  | error e => exact error (head e rfl)
  | ok a => exact rest a rfl

theorem ite {condition : Prop} [Decidable condition] {x y : Except ε α} (yes : RaisesOnly kind x)
    (no : RaisesOnly kind y) : RaisesOnly kind (if condition then x else y) := by
  split
  · exact yes
  · exact no

theorem refuse {condition : Prop} [Decidable condition] {e : ε} {f : α → Except ε β}
    {x : Except ε β} (fault : kind e) (rest : RaisesOnly kind x) :
    RaisesOnly kind (if condition then throw e >>= f else x) :=
  ite (error fault) rest

theorem map {x : Except ε α} {f : α → β} (h : RaisesOnly kind x) : RaisesOnly kind (f <$> x) := by
  cases x with
  | error e => exact error (h e rfl)
  | ok a => exact ok

theorem mapM {f : α → Except ε β} {items : List α} (each : ∀ item ∈ items, RaisesOnly kind (f item)) :
    RaisesOnly kind (items.mapM f) := by
  induction items with
  | nil => exact ok
  | cons item items ih =>
      rw [List.forall_mem_cons] at each
      rw [List.mapM_cons]
      exact bind each.1 fun b => bind (ih each.2) fun bs => ok

theorem forM {f : α → Except ε Unit} {items : List α}
    (each : ∀ item ∈ items, RaisesOnly kind (f item)) : RaisesOnly kind (items.forM f) := by
  induction items with
  | nil => exact ok
  | cons item items ih =>
      rw [List.forall_mem_cons] at each
      rw [List.forM]
      exact bind each.1 fun _ => ih each.2

theorem foldlM {f : β → α → Except ε β} {items : List α} {start : β}
    (step : ∀ b, ∀ item ∈ items, RaisesOnly kind (f b item)) :
    RaisesOnly kind (items.foldlM f start) := by
  induction items generalizing start with
  | nil => exact ok
  | cons item items ih =>
      rw [List.foldlM_cons]
      exact bind (step start item List.mem_cons_self) fun b =>
        ih fun b item member => step b item (List.mem_cons_of_mem _ member)

end RaisesOnly

end Rollup
