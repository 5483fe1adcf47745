import Rollup.Proofs.Aggregation.Published

/-! # Building under another limit

Under another limit on buckets the same is built, or else the buckets run out; and they can only run
out if the limit is lower.
-/

namespace Rollup

variable {α β : Type} {limit limit' : Nat}

/-- What succeeds under one limit gives the same under another one, unless that is lower and buckets
run out. -/
def SameOrSpent (limit limit' : Nat) (x x' : Except Error α) : Prop :=
  ∀ a, x = .ok a → x' = .ok a ∨ limit' < limit ∧ x' = .error (.tooManyBuckets limit')

namespace SameOrSpent

theorem refl (x : Except Error α) : SameOrSpent limit limit' x x :=
  fun _ h => .inl h

theorem bind {x x' : Except Error α} {f f' : α → Except Error β}
    (head : SameOrSpent limit limit' x x') (rest : ∀ a, SameOrSpent limit limit' (f a) (f' a)) :
    SameOrSpent limit limit' (x >>= f) (x' >>= f') := by
  intro b h
  obtain ⟨a, computed, h⟩ := bind_eq_ok.mp h
  rcases head a computed with same | ⟨lower, spent⟩
  · rw [same]
    exact rest a b h
  · rw [spent]
    exact .inr ⟨lower, rfl⟩

theorem map {x x' : Except Error α} (f : α → β) (h : SameOrSpent limit limit' x x') :
    SameOrSpent limit limit' (f <$> x) (f <$> x') := by
  rw [map_eq_pure_bind, map_eq_pure_bind]
  exact h.bind fun a => .refl _

end SameOrSpent

/-- Work that gives the same under another limit, or runs out of buckets, whatever was created
before. -/
def SameWork (limit limit' : Nat) (work work' : BuildM α) : Prop :=
  ∀ created, SameOrSpent limit limit' (work.run created) (work'.run created)

namespace SameWork

theorem refl (work : BuildM α) : SameWork limit limit' work work :=
  fun _ => .refl _

theorem lift {x x' : Except Error α} (h : SameOrSpent limit limit' x x') :
    SameWork limit limit' (liftM x) (liftM x') :=
  fun _ => h.bind fun _ => .refl _

theorem bind {work work' : BuildM α} {f f' : α → BuildM β} (head : SameWork limit limit' work work')
    (rest : ∀ a, SameWork limit limit' (f a) (f' a)) :
    SameWork limit limit' (work >>= f) (work' >>= f') := by
  intro created
  rw [StateT.run_bind, StateT.run_bind]
  exact (head created).bind fun made => rest made.1 made.2

theorem mapM {f f' : α → BuildM β} (each : ∀ a, SameWork limit limit' (f a) (f' a))
    (items : List α) : SameWork limit limit' (items.mapM f) (items.mapM f') := by
  induction items with
  | nil => exact .refl _
  | cons item items ih =>
      rw [List.mapM_cons, List.mapM_cons]
      exact (each item).bind fun b => ih.bind fun bs => .refl _

theorem reserve (limits : Limits) (bound count : Nat) :
    SameWork limits.buckets bound (reserve limits count)
      (reserve { limits with buckets := bound } count) := by
  intro created a h
  unfold Rollup.reserve at h ⊢
  simp only [StateT.run_bind, StateT.run_get, pure_bind] at h ⊢
  split at h
  · cases h
  · rename_i enough
    split
    · exact .inr ⟨by omega, rfl⟩
    · exact .inl h

end SameWork

/-! ## Filling gaps -/

theorem indices_sameOrSpent (limits : Limits) (bound : Nat) (first last : Int) :
    SameOrSpent limits.buckets bound (Histogram.indices limits first last)
      (Histogram.indices { limits with buckets := bound } first last) := by
  intro filled h
  unfold Histogram.indices at h ⊢
  dsimp only at h ⊢
  split at h
  · split
    · exact .inl h
    · exact .inr ⟨by omega, rfl⟩
  · cases h

namespace DateHistogram

open Calendar (Instant Interval)

/-- The limit only decides whether there are too many starts. -/
theorem starts_eq_some {interval : Interval} {last : Instant} {from? : Option Instant}
    {filled : List Instant} (h : starts interval last limit from? = some filled) :
    filled.length ≤ limit ∧ ∀ bound, starts interval last bound from? =
      if filled.length ≤ bound then some filled else none := by
  induction limit generalizing from? filled with
  | zero =>
      cases from? with
      | none =>
          cases h
          exact ⟨le_rfl, fun bound => by simp [starts]⟩
      | some start =>
          rw [starts] at h
          split at h
          · cases h
          · rename_i past
            cases h
            exact ⟨le_rfl, fun bound => by cases bound <;> simp [starts, past]⟩
  | succ limit ih =>
      cases from? with
      | none =>
          cases h
          exact ⟨Nat.zero_le _, fun bound => by simp [starts]⟩
      | some start =>
          rw [starts] at h
          split at h
          · rename_i reached
            obtain ⟨rest, later, rfl⟩ := Option.map_eq_some_iff.mp h
            obtain ⟨enough, others⟩ := ih later
            refine ⟨Nat.succ_le_succ enough, fun bound => ?_⟩
            cases bound with
            | zero => simp [starts, reached]
            | succ bound =>
                rw [starts, if_pos reached, others]
                by_cases fits : rest.length ≤ bound <;> simp [fits]
          · rename_i past
            cases h
            exact ⟨Nat.zero_le _, fun bound => by cases bound <;> simp [starts, past]⟩

theorem starts_sameOrSpent (interval : Interval) (first last : Instant) (limits : Limits)
    (bound : Nat) :
    SameOrSpent limits.buckets bound
      (do
        let some filled := starts interval last limits.buckets (some first)
          | throw (.tooManyBuckets limits.buckets)
        return filled.map Key.date)
      (do
        let some filled := starts interval last bound (some first) | throw (.tooManyBuckets bound)
        return filled.map Key.date) := by
  intro keys h
  split at h
  · rename_i filled found
    obtain ⟨enough, others⟩ := starts_eq_some found
    rw [others bound]
    by_cases fits : filled.length ≤ bound
    · rw [if_pos fits]
      exact .inl h
    · rw [if_neg fits]
      exact .inr ⟨by omega, rfl⟩
  · cases h

end DateHistogram

/-! ## Grouping and selecting -/

/-- Grouping depends on the limit only where gaps are filled. -/
theorem group_of_gaps {ι : Type} {scheme scheme' : Scheme}
    (gaps : ∀ points, SameOrSpent limit limit' (scheme.gaps points) (scheme'.gaps points))
    (enough : scheme'.minCount = scheme.minCount) (place : scheme'.place = scheme.place)
    (values : List (ι × Json)) :
    SameOrSpent limit limit' (scheme.group values) (scheme'.group values) := by
  unfold Scheme.group Scheme.formed
  rw [place, enough]
  exact .map _ ((SameOrSpent.refl _).bind fun places => (gaps _).bind fun filled => .refl _)

theorem Histogram.gaps_sameOrSpent (node : Node) (limits : Limits) (bound : Nat)
    (params : Histogram.Params) (field : String) (points : List Int) :
    SameOrSpent limits.buckets bound ((Histogram.scheme node limits params field).gaps points)
      ((Histogram.scheme node { limits with buckets := bound } params field).gaps points) := by
  unfold Histogram.scheme
  dsimp only
  split
  · exact .refl _
  · refine (SameOrSpent.refl _).bind fun span => ?_
    cases span with
    | none => exact .refl _
    | some span => exact (indices_sameOrSpent limits bound _ _).bind fun filled => .refl _

theorem DateHistogram.gaps_sameOrSpent (node : Node) (limits : Limits) (bound : Nat)
    (interval : Calendar.Interval) (minCount : Nat) (field : String) (points : List Int) :
    SameOrSpent limits.buckets bound
      ((DateHistogram.scheme node limits interval minCount field).gaps points)
      ((DateHistogram.scheme node { limits with buckets := bound } interval minCount field).gaps
        points) := by
  unfold DateHistogram.scheme
  dsimp only
  split
  · exact .refl _
  · refine (SameOrSpent.refl _).bind fun span => ?_
    cases span with
    | none => exact .refl _
    | some span => exact starts_sameOrSpent interval _ _ limits bound

theorem group_sameOrSpent (method : Bucketing) (node : Node) (rows : RowSet) (limits : Limits)
    (bound : Nat) :
    SameOrSpent limits.buckets bound (method.group node rows limits)
      (method.group node rows { limits with buckets := bound }) := by
  cases method with
  | terms => exact .refl _
  | histogram =>
      simp only [Bucketing.group, Histogram.group_eq]
      refine (SameOrSpent.refl _).bind fun field => (SameOrSpent.refl _).bind fun params =>
        (SameOrSpent.refl _).bind fun values => ?_
      exact group_of_gaps (Histogram.gaps_sameOrSpent node limits bound params field) rfl rfl values
  | dateHistogram =>
      simp only [Bucketing.group, DateHistogram.group_eq]
      refine (SameOrSpent.refl _).bind fun field => (SameOrSpent.refl _).bind fun interval =>
        (SameOrSpent.refl _).bind fun minCount => (SameOrSpent.refl _).bind fun values => ?_
      exact group_of_gaps (DateHistogram.gaps_sameOrSpent node limits bound interval minCount field)
        rfl rfl values

theorem selectBuckets_sameOrSpent (limits : Limits) (bound : Nat) (method : Bucketing) (node : Node)
    (rows : RowSet) :
    SameOrSpent limits.buckets bound (selectBuckets limits method node rows)
      (selectBuckets { limits with buckets := bound } method node rows) := by
  have size : method.defaultSize { limits with buckets := bound } = method.defaultSize limits := by
    cases method <;> rfl
  unfold selectBuckets
  rw [size]
  exact (SameOrSpent.refl _).bind fun order => (SameOrSpent.refl _).bind fun size =>
    (group_sameOrSpent method node rows limits bound).bind fun grouping => .refl _

/-! ## Building -/

mutual

theorem build_sameWork (limits : Limits) (bound : Nat) : ∀ (node : Node) (set : RowSet),
    SameWork limits.buckets bound (build limits set node)
      (build { limits with buckets := bound } set node)
  | ⟨name, typeName, kind, field, params, children⟩, set => by
      rw [build, build]
      refine (SameWork.refl _).bind fun method => ?_
      cases method with
      | metric metric => exact .refl _
      | pipeline pipeline => exact .refl _
      | bucketing method =>
          refine (SameWork.lift (selectBuckets_sameOrSpent limits bound method _ set)).bind
            fun selected => (SameWork.reserve limits bound _).bind fun _ => ?_
          refine (SameWork.mapM (fun candidate => ?_) _).bind fun buckets => .refl _
          exact (buildAll_sameWork limits bound children _ _).bind fun results => .refl _

theorem buildAll_sameWork (limits : Limits) (bound : Nat) : ∀ (nodes : List Node) (set : RowSet)
    (metrics : Entries Value), SameWork limits.buckets bound (buildAll limits set metrics nodes)
      (buildAll { limits with buckets := bound } set metrics nodes)
  | [], set, metrics => by
      rw [buildAll, buildAll]
      exact .refl _
  | node :: nodes, set, metrics => by
      have rest := buildAll_sameWork limits bound nodes set metrics
      rw [buildAll, buildAll]
      split
      · exact rest
      · split
        · exact (SameWork.refl _).bind fun result => rest.bind fun results => .refl _
        · exact (build_sameWork limits bound node set).bind fun result =>
            rest.bind fun results => .refl _

end

/-! ## Counting published buckets -/

theorem bucketCount_of_not_buckets {result : Result} (plain : result.buckets? = none) :
    result.bucketCount = 0 := by
  cases result with
  | buckets => cases plain
  | value => rfl
  | series => rfl

mutual

theorem bucketCount_resolveBelow [Memory] (limits : Limits) : ∀ (node : Node) (rows : List Row)
    (before after : Result), (∃ method, node.Checked method) →
      Forest.validate node.children = .ok () → evaluate limits rows node = .ok before →
      resolveBelow node before = .ok after → after.bucketCount = before.bucketCount
  | node, rows, .value value, after, checked, valid, evaluated, below => by
      cases (resolveBelow_of_not_buckets rfl).symm.trans below
      rfl
  | node, rows, .series values, after, checked, valid, evaluated, below => by
      cases (resolveBelow_of_not_buckets rfl).symm.trans below
      rfl
  | ⟨name, typeName, kind, field, params, children⟩, rows, .buckets buckets otherCount, after,
      checked, valid, evaluated, below => by
      obtain ⟨method, checked⟩ := checked
      obtain ⟨resolved, rfl, each⟩ := resolved_of_evaluate checked evaluated below
      obtain ⟨bucketing, kept, -, -, made⟩ := evaluate_buckets_iff.mp evaluated
      have known : ∀ bucket ∈ buckets,
          ∃ rows, evaluateAll limits rows children = .ok bucket.results := by
        intro bucket member
        obtain ⟨candidate, -, -, -, evaluated⟩ := exists_related made member
        exact ⟨_, evaluated⟩
      have each := (List.forall₂_and_left _ _).mpr ⟨known, each⟩
      have counts : (resolved.map fun bucket => bucketCountOf bucket.results) =
          buckets.map fun bucket => bucketCountOf bucket.results := by
        refine map_eq_of_related each fun before after related => ?_
        obtain ⟨⟨rows, evaluated⟩, -, -, resolved⟩ := related
        obtain ⟨piped, pipelines, inner⟩ := bind_eq_ok.mp resolved
        exact bucketCountOf_resolveAllBelow limits children rows piped before.results after.results
          before.results (Forest.checked_of_validate valid) (Forest.below_of_validate valid)
          (fun _ => standing_of_resolvePipelines valid evaluated pipelines) evaluated inner
      simp only [Result.bucketCount, bucketCountBelow_eq, counts, each.length_eq]

theorem bucketCountOf_resolveAllBelow [Memory] (limits : Limits) :
    ∀ (nodes : List Node) (rows : List Row) (piped built final level : Entries Result),
      (∀ node ∈ nodes, ∃ method, node.Checked method) →
      (∀ node ∈ nodes, Forest.validate node.children = .ok ()) →
      (∀ node ∈ nodes, ∃ before, piped.lookup node.name = some before ∧
        Standing limits rows level node before) →
      evaluateAll limits rows nodes = .ok built → resolveAllBelow piped nodes = .ok final →
      bucketCountOf final = bucketCountOf built
  | [], rows, piped, built, final, level, checked, valid, standing, evaluated, below => by
      cases evaluated
      cases below
      rfl
  | node :: nodes, rows, piped, built, final, level, checked, valid, standing, evaluated, below => by
      rw [List.forall_mem_cons] at checked valid standing
      obtain ⟨before, found, stands⟩ := standing.1
      rw [evaluateAll] at evaluated
      rw [resolveAllBelow, found] at below
      obtain ⟨after, inner, below⟩ := bind_eq_ok.mp below
      obtain ⟨others, later, ⟨⟩⟩ := bind_eq_ok.mp below
      have rest (built : Entries Result) (evaluated : evaluateAll limits rows nodes = .ok built) :
          bucketCountOf others = bucketCountOf built :=
        bucketCountOf_resolveAllBelow limits nodes rows piped built others level checked.2 valid.2
          standing.2 evaluated later
      cases stands with
      | pipeline is unbucketed =>
          rw [if_pos is] at evaluated
          cases (resolveBelow_of_not_buckets unbucketed).symm.trans inner
          rw [bucketCountOf, rest built evaluated, bucketCount_of_not_buckets unbucketed, Nat.zero_add]
      | built plain _ computed =>
          rw [if_neg plain, computed] at evaluated
          obtain ⟨_, ⟨⟩, evaluated⟩ := bind_eq_ok.mp evaluated
          obtain ⟨remaining, others, ⟨⟩⟩ := bind_eq_ok.mp evaluated
          rw [bucketCountOf, bucketCountOf, rest remaining others,
            bucketCount_resolveBelow limits node rows before after checked.1 valid.1 computed inner]

end

/-- What is published has the buckets that were built. -/
theorem bucketCountOf_resolve [Memory] {limits : Limits} {rows : List Row} {nodes : List Node}
    {built results : Entries Result} (valid : Forest.validate nodes = .ok ())
    (evaluated : evaluateAll limits rows nodes = .ok built)
    (resolved : resolve nodes built = .ok results) : bucketCountOf results = bucketCountOf built := by
  obtain ⟨piped, pipelines, inner⟩ := bind_eq_ok.mp resolved
  exact bucketCountOf_resolveAllBelow limits nodes rows piped built results built
    (Forest.checked_of_validate valid) (Forest.below_of_validate valid)
    (fun _ => standing_of_resolvePipelines valid evaluated pipelines) evaluated inner

end Rollup
