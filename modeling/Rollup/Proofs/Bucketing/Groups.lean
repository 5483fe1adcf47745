import Rollup.Bucketing.Grouping
import Rollup.Proofs.Key.Order
import Rollup.Proofs.Lookup

/-! # Groups by key

Groups stand in strictly ascending order of key, so a key has at most one group. Putting rows into
groups changes the group of their key alone and loses no row.
-/

namespace Rollup

namespace Groups

variable {ι κ : Type}

/-- The same groups of other things. -/
def mapRows (f : ι → κ) (groups : Groups ι) : Groups κ := groups.map (Prod.map id (List.map f))

/-- How many rows are in groups. -/
def size (groups : Groups ι) : Nat := (groups.flatMap (·.2)).length

/-- Strictly ascending keys, all of them in range. -/
structure Ordered (groups : Groups ι) : Prop where
  ascending : groups.Pairwise fun a b => a.1.compare b.1 = .lt
  inRange : ∀ group ∈ groups, group.1.InRange

namespace Ordered

theorem nil : Ordered ([] : Groups ι) := ⟨.nil, by simp⟩

theorem tail {group : Key × List ι} {groups : Groups ι} (h : Ordered (group :: groups)) :
    Ordered groups :=
  ⟨h.ascending.of_cons, fun g hg => h.inRange g (List.mem_cons_of_mem _ hg)⟩

theorem head_before {group : Key × List ι} {groups : Groups ι} (h : Ordered (group :: groups)) :
    ∀ g ∈ groups, group.1.compare g.1 = .lt :=
  fun _ hg => List.rel_of_pairwise_cons h.ascending hg

theorem cons {group : Key × List ι} {groups : Groups ι} (hk : group.1.InRange)
    (before : ∀ g ∈ groups, group.1.compare g.1 = .lt) (h : Ordered groups) :
    Ordered (group :: groups) :=
  ⟨List.pairwise_cons.mpr ⟨before, h.ascending⟩, List.forall_mem_cons.mpr ⟨hk, h.inRange⟩⟩

theorem nodup {groups : Groups ι} (h : Ordered groups) : (groups.map (·.1)).Nodup := by
  rw [List.Nodup, List.pairwise_map]
  refine h.ascending.imp ?_
  intro a b before same
  rw [same, Key.compare_self] at before
  cases before

theorem sublist {groups groups' : Groups ι} (h : Ordered groups) (part : groups'.Sublist groups) :
    Ordered groups' :=
  ⟨h.ascending.sublist part, fun g hg => h.inRange g (part.subset hg)⟩

end Ordered

/-! ## Putting rows into groups -/

theorem mapRows_put (f : ι → κ) (key : Key) (ids : List ι) (groups : Groups ι) :
    mapRows f (groups.put key ids) = (mapRows f groups).put key (ids.map f) := by
  induction groups with
  | nil => rfl
  | cons group rest ih =>
      simp only [put, mapRows, List.map_cons, Prod.map_fst, id_eq]
      cases key.compare group.1 with
      | lt => rfl
      | eq => simp [Prod.map]
      | gt => simpa [mapRows] using ih

theorem size_put (key : Key) (ids : List ι) (groups : Groups ι) :
    size (groups.put key ids) = ids.length + size groups := by
  induction groups with
  | nil => simp [put, size]
  | cons group rest ih =>
      simp only [put]
      cases key.compare group.1 with
      | lt => simp [size]
      | eq => simp [size]
      | gt =>
          simp only [size, List.flatMap_cons, List.length_append] at ih ⊢
          omega

theorem keys_put (key : Key) (ids : List ι) (groups : Groups ι) (other : Key) :
    other ∈ (groups.put key ids).map (·.1) ↔ other = key ∨ other ∈ groups.map (·.1) := by
  induction groups with
  | nil => simp [put]
  | cons first rest ih =>
      simp only [put]
      cases order : key.compare first.1 with
      | lt => simp
      | eq =>
          rw [Key.eq_of_compare order]
          simp
      | gt =>
          simp only [List.map_cons, List.mem_cons, ih]
          exact or_left_comm

theorem ordered_put {key : Key} (ids : List ι) {groups : Groups ι} (hk : key.InRange)
    (h : Ordered groups) : Ordered (groups.put key ids) := by
  induction groups with
  | nil => exact .cons hk (by simp) .nil
  | cons first rest ih =>
      have hf : first.1.InRange := h.inRange first List.mem_cons_self
      simp only [put]
      cases order : key.compare first.1 with
      | lt =>
          refine .cons hk ?_ h
          intro g hg
          rcases List.mem_cons.mp hg with rfl | later
          · exact order
          · exact Key.before_trans hk hf (h.inRange g hg) order (h.head_before g later)
      | eq => exact .cons hf h.head_before h.tail
      | gt =>
          refine .cons hf ?_ (ih h.tail)
          intro g hg
          rcases (keys_put key ids rest g.1).mp (List.mem_map_of_mem hg) with same | held
          · rw [same, ← Key.compare_swap, order]; rfl
          · obtain ⟨g', hg', same⟩ := List.mem_map.mp held
            rw [← same]
            exact h.head_before g' hg'

theorem lookup_of_before {key : Key} {groups : Groups ι}
    (h : ∀ g ∈ groups, key.compare g.1 = .lt) : groups.lookup key = none := by
  apply lookup_eq_none_of_not_mem
  intro member
  obtain ⟨g, hg, same⟩ := List.mem_map.mp member
  have before := h g hg
  rw [same, Key.compare_self] at before
  cases before

/-- Putting rows changes the group of their key alone. -/
theorem lookup_put {key : Key} (ids : List ι) {groups : Groups ι} (hk : key.InRange)
    (h : Ordered groups) (other : Key) :
    (groups.put key ids).lookup other =
      if other = key then some (ids ++ (groups.lookup key).getD []) else groups.lookup other := by
  induction groups with
  | nil => rw [put, lookup_cons_ite]; simp
  | cons first rest ih =>
      simp only [put]
      cases order : key.compare first.1 with
      | lt =>
          have absent : List.lookup key (first :: rest) = none := by
            apply lookup_of_before
            intro g hg
            rcases List.mem_cons.mp hg with rfl | later
            · exact order
            · exact Key.before_trans hk (h.inRange first List.mem_cons_self) (h.inRange g hg)
                order (h.head_before g later)
          rw [absent, lookup_cons_ite]
          simp
      | eq =>
          obtain rfl := Key.eq_of_compare order
          simp only [lookup_cons_ite, if_true, Option.getD_some]
          by_cases same : other = first.1 <;> simp [same]
      | gt =>
          have different : key ≠ first.1 := by
            rintro rfl
            rw [Key.compare_self] at order
            cases order
          simp only [lookup_cons_ite, ih h.tail, if_neg different]
          by_cases same : other = first.1
          · have : other ≠ key := fun c => different (c.symm.trans same)
            rw [if_pos same, if_neg this, if_pos same]
          · simp only [if_neg same]

/-! ## Grouping and filling -/

theorem mapRows_ofPairs (f : ι → κ) (pairs : List (Key × ι)) :
    mapRows f (ofPairs pairs) = ofPairs (pairs.map (Prod.map id f)) := by
  induction pairs with
  | nil => rfl
  | cons pair rest ih =>
      have step := mapRows_put f pair.1 [pair.2] (ofPairs rest)
      rw [ih] at step
      exact step

theorem mapRows_fill (f : ι → κ) (keys : List Key) (groups : Groups ι) :
    mapRows f (groups.fill keys) = (mapRows f groups).fill keys := by
  induction keys with
  | nil => rfl
  | cons key rest ih =>
      have step := mapRows_put f key [] (groups.fill rest)
      rw [ih] at step
      exact step

theorem size_ofPairs (pairs : List (Key × ι)) : size (ofPairs pairs) = pairs.length := by
  induction pairs with
  | nil => rfl
  | cons pair rest ih =>
      have step := size_put pair.1 [pair.2] (ofPairs rest)
      rw [ih] at step
      exact step.trans (Nat.add_comm _ _)

theorem size_fill (keys : List Key) (groups : Groups ι) : size (groups.fill keys) = size groups := by
  induction keys with
  | nil => rfl
  | cons key rest ih =>
      have step := size_put key [] (groups.fill rest)
      rw [ih, List.length_nil, Nat.zero_add] at step
      exact step

theorem ordered_ofPairs {pairs : List (Key × ι)} (h : ∀ pair ∈ pairs, pair.1.InRange) :
    Ordered (ofPairs pairs) := by
  induction pairs with
  | nil => exact .nil
  | cons pair rest ih =>
      rw [List.forall_mem_cons] at h
      exact ordered_put _ h.1 (ih h.2)

theorem ordered_fill {keys : List Key} {groups : Groups ι} (hk : ∀ key ∈ keys, key.InRange)
    (h : Ordered groups) : Ordered (groups.fill keys) := by
  induction keys with
  | nil => exact h
  | cons key rest ih =>
      rw [List.forall_mem_cons] at hk
      exact ordered_put _ hk.1 (ih hk.2)

theorem keys_ofPairs (pairs : List (Key × ι)) (key : Key) :
    key ∈ (ofPairs pairs).map (·.1) ↔ key ∈ pairs.map (·.1) := by
  induction pairs with
  | nil => rfl
  | cons pair rest ih =>
      rw [List.map_cons, List.mem_cons, ← ih]
      exact keys_put pair.1 [pair.2] (ofPairs rest) key

theorem keys_fill (keys : List Key) (groups : Groups ι) (key : Key) :
    key ∈ (groups.fill keys).map (·.1) ↔ key ∈ keys ∨ key ∈ groups.map (·.1) := by
  induction keys with
  | nil => simp [fill]
  | cons first rest ih =>
      rw [List.mem_cons, or_assoc, ← ih]
      exact keys_put first [] (groups.fill rest) key

/-- The rows of a key are those that were paired with it, in their order. -/
theorem lookup_ofPairs {pairs : List (Key × ι)} (h : ∀ pair ∈ pairs, pair.1.InRange) (key : Key) :
    (ofPairs pairs).lookup key =
      if key ∈ pairs.map (·.1) then some ((pairs.filter (·.1 = key)).map (·.2)) else none := by
  induction pairs with
  | nil => rfl
  | cons pair rest ih =>
      rw [List.forall_mem_cons] at h
      have step := lookup_put [pair.2] h.1 (ordered_ofPairs h.2) key
      change (put pair.1 [pair.2] (ofPairs rest)).lookup key = _
      rw [step, ih h.2]
      by_cases same : key = pair.1
      · subst same
        by_cases later : pair.1 ∈ rest.map (·.1)
        · simp [ih h.2, later]
        · have none : rest.filter (·.1 = pair.1) = [] := by
            rw [List.filter_eq_nil_iff]
            intro p hp c
            exact later (List.mem_map.mpr ⟨p, hp, by simpa using c⟩)
          simp [ih h.2, later, none]
      · have kept : (pair :: rest).filter (·.1 = key) = rest.filter (·.1 = key) :=
          List.filter_cons_of_neg (by simpa using Ne.symm same)
        simp only [kept, List.map_cons, List.mem_cons, same, false_or, if_false]

theorem lookup_fill {keys : List Key} {groups : Groups ι} (hk : ∀ key ∈ keys, key.InRange)
    (h : Ordered groups) (key : Key) :
    (groups.fill keys).lookup key =
      if key ∈ keys then some ((groups.lookup key).getD []) else groups.lookup key := by
  induction keys with
  | nil => rfl
  | cons first rest ih =>
      rw [List.forall_mem_cons] at hk
      have step := lookup_put [] hk.1 (ordered_fill hk.2 h) key
      change (put first [] (groups.fill rest)).lookup key = _
      rw [step, ih hk.2]
      by_cases same : key = first
      · subst same
        by_cases later : key ∈ rest <;> simp [ih hk.2, later]
      · simp [same]

end Groups

end Rollup
