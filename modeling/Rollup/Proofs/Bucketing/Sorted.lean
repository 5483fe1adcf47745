import Rollup.Proofs.Bucketing.Methods

/-! # Rows sorted by key

Grouping by a scheme sorts rows by their keys: a group has the rows of its key and no others, and
what is folded are the rows whose key has no group. It goes wrong only where the keys that fill gaps
cannot be found.
-/

namespace Rollup

variable {ι : Type}

/-- The rows whose value has a key, in their order. -/
def idsOf (keyOf : Json → Key) (values : List (ι × Json)) (key : Key) : List ι :=
  (values.filter fun value => keyOf value.2 = key).map (·.1)

namespace Grouping

/-- The keys that have a group. -/
def keys (grouping : Grouping ι) : List Key := grouping.groups.map (·.1)

/-- Rows sorted by the key of their value. The keys of groups ascend, so that no key has two groups. -/
structure Sorts (grouping : Grouping ι) (keyOf : Json → Key) (values : List (ι × Json)) : Prop where
  ascending : grouping.keys.Pairwise fun a b => a.compare b = .lt
  own : ∀ group ∈ grouping.groups, group.2 = idsOf keyOf values group.1
  folded : grouping.folded = (values.filter fun value => keyOf value.2 ∉ grouping.keys).length

end Grouping

section Idle

variable {keyOf : Json → Key} {values : List (ι × Json)}

theorem idsOf_eq_nil {key : Key} (none : ∀ value ∈ values, keyOf value.2 ≠ key) :
    idsOf keyOf values key = [] := by
  simpa [idsOf] using fun a b member => none (a, b) member

/-- Groups that have the rows of their keys have as many rows as there are with these keys. -/
theorem size_of_own {groups : Groups ι} (distinct : (groups.map (·.1)).Nodup)
    (own : ∀ group ∈ groups, group.2 = idsOf keyOf values group.1) :
    groups.size = (values.filter fun value => keyOf value.2 ∈ groups.map (·.1)).length := by
  induction groups with
  | nil => simp [Groups.size]
  | cons group groups ih =>
      rw [List.map_cons, List.nodup_cons] at distinct
      rw [List.forall_mem_cons] at own
      have rest := ih distinct.2 own.2
      have first : (values.filter fun value => keyOf value.2 ∈ (group :: groups).map (·.1)).filter
          (fun value => keyOf value.2 = group.1) = values.filter fun value => keyOf value.2 = group.1 := by
        rw [List.filter_filter]
        apply List.filter_congr
        intro value member
        by_cases same : keyOf value.2 = group.1 <;> simp [same]
      have others : (values.filter fun value => keyOf value.2 ∈ (group :: groups).map (·.1)).filter
          (fun value => !decide (keyOf value.2 = group.1)) =
          values.filter fun value => keyOf value.2 ∈ groups.map (·.1) := by
        rw [List.filter_filter]
        apply List.filter_congr
        intro value member
        by_cases same : keyOf value.2 = group.1
        · simpa [same] using distinct.1
        · simp [same]
      rw [List.length_eq_length_filter_add (fun value => decide (keyOf value.2 = group.1)), first,
        others, ← rest]
      simp [Groups.size, own.1, idsOf]

end Idle

namespace Scheme

variable {scheme : Scheme} {values : List (ι × Json)} {keyOf : Json → Key}
  (keyed : ∀ value ∈ values, scheme.key? value.2 = some (keyOf value.2))

include keyed

theorem own_of_formed {groups : Groups ι} (h : scheme.formed values = .ok groups) :
    ∀ group ∈ groups, group.2 = idsOf keyOf values group.1 := by
  rintro ⟨key, ids⟩ member
  apply (rows_of_mem h member).trans
  apply congrArg (List.map Prod.fst)
  apply List.filter_congr
  intro value hvalue
  simp [keyed value hvalue]

variable {grouping : Grouping ι} (h : scheme.group values = .ok grouping)

include h

/-- Grouping sorts rows. -/
theorem sorts : grouping.Sorts keyOf values := by
  have ordered := scheme.ordered_group h
  have all := scheme.size_group h
  obtain ⟨groups, made, rfl⟩ := map_eq_ok.mp h
  have own : ∀ group ∈ (Grouping.atLeast scheme.minCount groups).groups,
      group.2 = idsOf keyOf values group.1 :=
    fun group kept => own_of_formed keyed made group (List.mem_of_mem_filter kept)
  refine ⟨List.pairwise_map.mpr ordered.ascending, own, ?_⟩
  rw [size_of_own ordered.nodup own, List.length_eq_length_filter_add (l := values)
    fun value => decide (keyOf value.2 ∈ (Grouping.atLeast scheme.minCount groups).keys)] at all
  simpa only [decide_not] using Nat.add_left_cancel all

/-- Where groups may be empty every row is in one. -/
theorem complete (few : scheme.minCount = 0) : ∀ value ∈ values, keyOf value.2 ∈ grouping.keys := by
  intro value member
  obtain ⟨groups, made, rfl⟩ := map_eq_ok.mp h
  simpa [Grouping.keys, Grouping.atLeast, few] using mem_of_key? made member (keyed value member)

/-- Where groups may not be empty, those are kept that have enough rows. -/
theorem mem_keys_iff (enough : 0 < scheme.minCount) (key : Key) :
    key ∈ grouping.keys ↔ scheme.minCount ≤ (idsOf keyOf values key).length := by
  obtain ⟨groups, made, rfl⟩ := map_eq_ok.mp h
  have own := own_of_formed keyed made
  constructor
  · intro member
    obtain ⟨group, kept, rfl⟩ := List.mem_map.mp member
    obtain ⟨formed, long⟩ := List.mem_filter.mp kept
    rw [← own group formed]
    exact of_decide_eq_true long
  · intro long
    have hit : ∃ value ∈ values, keyOf value.2 = key := by
      by_contra! none
      rw [idsOf_eq_nil none] at long
      exact absurd long (Nat.not_le.mpr enough)
    obtain ⟨value, hvalue, rfl⟩ := hit
    obtain ⟨group, formed, same⟩ := List.mem_map.mp (mem_of_key? made hvalue (keyed value hvalue))
    rw [← same, ← own group formed] at long
    rw [← same]
    exact List.mem_map_of_mem (List.mem_filter.mpr ⟨formed, decide_eq_true long⟩)

end Scheme

/-! ## Rows on a line -/

namespace Scheme

variable {scheme : Scheme} {values : List (ι × Json)} {keyAt : Int → Key}
  {pointOf : Json → Option Int}
  (placed : ∀ value ∈ values, scheme.place value.2 = .ok (onLine keyAt (pointOf value.2)))

include placed

theorem keyed_of_placed : ∀ value ∈ values,
    scheme.key? value.2 = some ((pointOf value.2).elim .missing keyAt) :=
  fun value member => key?_of_place (placed value member)

theorem formed_eq : scheme.formed values =
    scheme.gaps (values.filterMap fun value => pointOf value.2) >>= fun gaps =>
      .ok ((Groups.ofPairs (scheme.pairs values)).fill gaps) := by
  have places : values.mapM (fun value => scheme.place value.2) =
      .ok (values.map fun value => onLine keyAt (pointOf value.2)) := by
    rw [mapM_eq_ok, List.forall₂_map_right_iff]
    exact List.forall₂_same.mpr placed
  rw [formed, places]
  simp only [bind, Except.bind]
  rw [zip_eq_pairs places, List.filterMap_map]
  rfl

/-- Where the gaps cannot be found rows are not grouped. -/
theorem group_eq_error {e : Error}
    (h : scheme.gaps (values.filterMap fun value => pointOf value.2) = .error e) :
    scheme.group values = .error e := by
  rw [group, formed_eq placed, h]
  rfl

/-- Where they can be found rows are grouped, by their own keys and those of the gaps. -/
theorem exists_group {gaps : List Key}
    (h : scheme.gaps (values.filterMap fun value => pointOf value.2) = .ok gaps) :
    ∃ grouping, scheme.group values = .ok grouping ∧ (scheme.minCount = 0 → ∀ key,
      key ∈ grouping.keys ↔
        key ∈ gaps ∨ ∃ value ∈ values, (pointOf value.2).elim .missing keyAt = key) := by
  refine ⟨_, map_eq_ok.mpr ⟨_, by rw [formed_eq placed, h]; rfl, rfl⟩, fun few key => ?_⟩
  have all : (Grouping.atLeast scheme.minCount ((Groups.ofPairs (scheme.pairs values)).fill gaps)).keys =
      ((Groups.ofPairs (scheme.pairs values)).fill gaps).map (·.1) := by
    simp [Grouping.keys, Grouping.atLeast, few]
  have own : key ∈ (scheme.pairs values).map (·.1) ↔
      ∃ value ∈ values, (pointOf value.2).elim .missing keyAt = key := by
    rw [pairs, List.map_map, List.mem_map]
    refine exists_congr fun value => and_congr_right fun member => ?_
    simp [keyed_of_placed placed value member]
  rw [all, Groups.keys_fill, Groups.keys_ofPairs, own]

/-- Where groups need rows, those are kept that have enough, and no gaps are filled. -/
theorem exists_group_enough (enough : 0 < scheme.minCount)
    (unfilled : scheme.gaps (values.filterMap fun value => pointOf value.2) = .ok []) :
    ∃ grouping, scheme.group values = .ok grouping ∧
      grouping.Sorts (fun value => (pointOf value).elim .missing keyAt) values ∧
      ∀ key, key ∈ grouping.keys ↔ scheme.minCount ≤
        (idsOf (fun value => (pointOf value).elim .missing keyAt) values key).length := by
  obtain ⟨grouping, made, -⟩ := exists_group placed unfilled
  have keyed := keyed_of_placed placed
  exact ⟨grouping, made, sorts keyed made, mem_keys_iff keyed made enough⟩

end Scheme

end Rollup
