import Rollup.Proofs.Bucketing.Rows

/-! # Grouping rows in another order

The order of rows decides the order within a group and nothing else: the groups, their sizes and the
gaps that are filled are the same.
-/

namespace Rollup

theorem forall₂_of_map_eq {α β γ : Type} {f : α → γ} {g : β → γ} {R : α → β → Prop} {xs : List α}
    {ys : List β} (same : xs.map f = ys.map g) (each : ∀ x ∈ xs, ∀ y ∈ ys, f x = g y → R x y) :
    List.Forall₂ R xs ys := by
  induction xs generalizing ys with
  | nil =>
      cases ys with
      | nil => exact .nil
      | cons y ys => cases same
  | cons x xs ih =>
      cases ys with
      | nil => cases same
      | cons y ys =>
          obtain ⟨first, rest⟩ := List.cons.inj same
          refine .cons (each x List.mem_cons_self y List.mem_cons_self first) (ih rest ?_)
          exact fun x hx y hy => each x (List.mem_cons_of_mem _ hx) y (List.mem_cons_of_mem _ hy)

/-- Two groups of the same rows, perhaps in another order. -/
def SameGroup {ι : Type} (group group' : Key × List ι) : Prop :=
  group'.1 = group.1 ∧ group.2.Perm group'.2

namespace Groups

variable {ι : Type}

/-- Ordered groups of the same keys have them in the same order. -/
theorem Ordered.keys_eq {groups groups' : Groups ι} (laws : Ordered groups) (laws' : Ordered groups')
    (same : ∀ key, key ∈ groups.map (·.1) ↔ key ∈ groups'.map (·.1)) :
    groups.map (·.1) = groups'.map (·.1) :=
  Key.eq_of_ascending (List.pairwise_map.mpr laws.ascending)
    (List.pairwise_map.mpr laws'.ascending) same

end Groups

theorem spanOf_perm {points points' : List Int} (perm : points.Perm points') :
    spanOf points = spanOf points' := by
  refine perm.foldl_eq' (fun x _ y _ span => ?_) none
  cases span with
  | none => simp [widen, Int.min_comm, Int.max_comm]
  | some span => simp [widen, Int.min_comm x y, Int.max_comm x y]

namespace Scheme

variable {ι : Type} {scheme : Scheme} {values values' : List (ι × Json)}
  (fills : ∀ {points points' : List Int}, points.Perm points' → scheme.gaps points = scheme.gaps points')
  (perm : values.Perm values')

include fills perm

theorem formed_perm {groups : Groups ι} (h : scheme.formed values = .ok groups) :
    ∃ groups', scheme.formed values' = .ok groups' ∧ List.Forall₂ SameGroup groups groups' := by
  obtain ⟨places, placed, made⟩ := bind_eq_ok.mp h
  obtain ⟨gaps, filled, made⟩ := bind_eq_ok.mp made
  obtain ⟨places', placed', reordered⟩ := mapM_perm perm placed
  rw [fills (reordered.filterMap _)] at filled
  have h' : scheme.formed values' = .ok ((Groups.ofPairs (scheme.pairs values')).fill gaps) := by
    rw [← zip_eq_pairs placed']
    exact bind_eq_ok.mpr ⟨places', placed', bind_eq_ok.mpr ⟨gaps, filled, rfl⟩⟩
  refine ⟨_, h', forall₂_of_map_eq ((ordered h).keys_eq (ordered h') fun key => ?_) ?_⟩
  · obtain rfl := Except.ok.inj made
    rw [zip_eq_pairs placed, Groups.keys_fill, Groups.keys_fill, Groups.keys_ofPairs,
      Groups.keys_ofPairs]
    exact or_congr_right ((perm.map _).map _).mem_iff
  · rintro ⟨key, ids⟩ member ⟨key', ids'⟩ member' rfl
    refine ⟨rfl, ?_⟩
    rw [rows_of_mem h member, rows_of_mem h' member']
    exact (perm.filter _).map _

theorem group_perm {grouping : Grouping ι} (h : scheme.group values = .ok grouping) :
    ∃ grouping', scheme.group values' = .ok grouping' ∧ grouping'.folded = grouping.folded ∧
      List.Forall₂ SameGroup grouping.groups grouping'.groups := by
  obtain ⟨groups, made, rfl⟩ := map_eq_ok.mp h
  obtain ⟨groups', made', same⟩ := formed_perm fills perm made
  refine ⟨_, map_eq_ok.mpr ⟨groups', made', rfl⟩, ?_, ?_⟩
  · have few := List.rel_filter (p := fun group => group.2.length < scheme.minCount)
      (q := fun group => group.2.length < scheme.minCount)
      (fun group group' same => by simp only [same.2.length_eq]) same
    simp only [Grouping.atLeast, List.length_flatMap]
    exact congrArg List.sum (map_eq_of_related few fun _ _ same => same.2.length_eq.symm)
  · exact List.rel_filter (fun group group' same => by simp only [same.2.length_eq]) same

end Scheme

namespace Bucketing

variable {method : Bucketing} {node : Node} {limits : Limits}

/-- Which gaps are filled does not depend on the order of rows. -/
theorem gaps_perm {field : String} {scheme : Scheme}
    (h : method.schemeOf node limits field = .ok scheme) {points points' : List Int}
    (perm : points.Perm points') : scheme.gaps points = scheme.gaps points' := by
  cases method with
  | terms =>
      cases h
      rfl
  | histogram =>
      obtain ⟨params, -, ⟨⟩⟩ := bind_eq_ok.mp h
      simp only [Histogram.scheme, Histogram.filledSpan, spanOf_perm perm]
  | dateHistogram =>
      obtain ⟨interval, -, h⟩ := bind_eq_ok.mp h
      obtain ⟨minCount, -, ⟨⟩⟩ := bind_eq_ok.mp h
      simp only [DateHistogram.scheme, DateHistogram.filledSpan, spanOf_perm perm]

theorem groupRows_perm {rows rows' : List Row} (perm : rows.Perm rows') {grouping : Grouping Row}
    (h : method.groupRows node limits rows = .ok grouping) :
    ∃ grouping', method.groupRows node limits rows' = .ok grouping' ∧
      grouping'.folded = grouping.folded ∧
      List.Forall₂ SameGroup grouping.groups grouping'.groups := by
  obtain ⟨field, required, h⟩ := bind_eq_ok.mp h
  obtain ⟨scheme, asked, h⟩ := bind_eq_ok.mp h
  obtain ⟨values, read, h⟩ := bind_eq_ok.mp h
  obtain ⟨values', read', reordered⟩ := mapM_perm perm read
  obtain ⟨grouping', grouped, same⟩ := scheme.group_perm (gaps_perm asked) reordered h
  exact ⟨grouping', bind_eq_ok.mpr ⟨field, required, bind_eq_ok.mpr ⟨scheme, asked,
    bind_eq_ok.mpr ⟨values', read', grouped⟩⟩⟩, same⟩

end Bucketing

end Rollup
