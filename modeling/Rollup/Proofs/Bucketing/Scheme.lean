import Rollup.Proofs.Bucketing.Groups
import Rollup.Proofs.Success

/-! # Grouping schemes

The ways of grouping rows differ in three points only: the place that they give a value, the keys
that fill the gaps between places, and how many rows a group needs. What holds of every such scheme
holds of each of them.
-/

namespace Rollup

/-- How rows are told apart by a value each. A value has a key, and maybe a point on the line along
which gaps are filled; gaps are filled only where groups may be empty. -/
structure Scheme where
  minCount : Nat
  place : Json → Except Error (Key × Option Int)
  gaps : List Int → Except Error (List Key)
  placed_inRange : ∀ {value key point}, place value = .ok (key, point) → key.InRange
  gaps_inRange : ∀ {points keys}, gaps points = .ok keys → ∀ key ∈ keys, key.InRange
  gaps_eq_nil : ∀ {points keys}, minCount ≠ 0 → gaps points = .ok keys → keys = []

/-- The same kept groups of other things. -/
def Grouping.mapRows {ι κ : Type} (f : ι → κ) (grouping : Grouping ι) : Grouping κ :=
  { groups := grouping.groups.mapRows f, folded := grouping.folded }

namespace Scheme

variable {ι κ : Type}

/-- The key of a value, if it has one. -/
def key? (scheme : Scheme) (value : Json) : Option Key :=
  (scheme.place value).toOption.map (·.1)

/-- Every group of rows with a value each, those that fill gaps included. -/
def formed (scheme : Scheme) (values : List (ι × Json)) : Except Error (Groups ι) := do
  let places ← values.mapM fun (_, value) => scheme.place value
  let gaps ← scheme.gaps (places.filterMap (·.2))
  return (Groups.ofPairs ((places.map (·.1)).zip (values.map (·.1)))).fill gaps

/-- The groups that have enough rows. -/
def group (scheme : Scheme) (values : List (ι × Json)) : Except Error (Grouping ι) :=
  .atLeast scheme.minCount <$> scheme.formed values

/-- Each row with the key of its value. -/
def pairs (scheme : Scheme) (values : List (ι × Json)) : List (Key × ι) :=
  values.map fun value => ((scheme.key? value.2).getD .missing, value.1)

variable {scheme : Scheme} {values : List (ι × Json)} {groups : Groups ι}

theorem key?_of_place {value : Json} {place : Key × Option Int}
    (h : scheme.place value = .ok place) : scheme.key? value = some place.1 := by
  rw [key?, h]
  rfl

theorem inRange_of_key? {value : Json} {key : Key} (h : scheme.key? value = some key) :
    key.InRange := by
  unfold key? at h
  cases placed : scheme.place value with
  | error e => rw [placed] at h; cases h
  | ok place =>
      rw [placed] at h
      cases h
      exact scheme.placed_inRange placed

theorem zip_eq_pairs {places : List (Key × Option Int)}
    (h : values.mapM (fun value => scheme.place value.2) = .ok places) :
    (places.map (·.1)).zip (values.map (·.1)) = scheme.pairs values := by
  induction mapM_eq_ok.mp h with
  | nil => rfl
  | cons first rest ih =>
      simp only [pairs, List.map_cons, List.zip_cons_cons, key?_of_place first, Option.getD_some]
      exact congrArg _ (ih (mapM_eq_ok.mpr rest))

/-- Groups are formed of rows that all have a key. -/
theorem formed_eq_ok (h : scheme.formed values = .ok groups) :
    (∀ value ∈ values, (scheme.key? value.2).isSome) ∧
      ∃ points gaps, scheme.gaps points = .ok gaps ∧
        groups = (Groups.ofPairs (scheme.pairs values)).fill gaps := by
  obtain ⟨places, placed, h⟩ := bind_eq_ok.mp h
  obtain ⟨gaps, filled, h⟩ := bind_eq_ok.mp h
  cases h
  have keyed : ∀ value ∈ values, (scheme.key? value.2).isSome := by
    intro value member
    obtain ⟨place, -, hplace⟩ := exists_result placed member
    rw [key?_of_place hplace]
    rfl
  exact ⟨keyed, _, gaps, filled, by rw [zip_eq_pairs placed]⟩

theorem pairs_inRange (keyed : ∀ value ∈ values, (scheme.key? value.2).isSome) :
    ∀ pair ∈ scheme.pairs values, pair.1.InRange := by
  intro pair member
  obtain ⟨value, hvalue, rfl⟩ := List.mem_map.mp member
  obtain ⟨key, hkey⟩ := Option.isSome_iff_exists.mp (keyed value hvalue)
  rw [hkey]
  exact inRange_of_key? hkey

theorem pairs_of_key (keyed : ∀ value ∈ values, (scheme.key? value.2).isSome) (key : Key) :
    ((scheme.pairs values).filter (·.1 = key)).map (·.2) =
      (values.filter fun value => scheme.key? value.2 = some key).map (·.1) := by
  rw [pairs, List.filter_map, List.map_map]
  congr 1
  apply List.filter_congr
  intro value member
  obtain ⟨other, hother⟩ := Option.isSome_iff_exists.mp (keyed value member)
  simp [hother]

theorem ordered (h : scheme.formed values = .ok groups) : groups.Ordered := by
  obtain ⟨keyed, points, gaps, filled, rfl⟩ := formed_eq_ok h
  exact Groups.ordered_fill (scheme.gaps_inRange filled)
    (Groups.ordered_ofPairs (pairs_inRange keyed))

theorem size_formed (h : scheme.formed values = .ok groups) : groups.size = values.length := by
  obtain ⟨-, points, gaps, -, rfl⟩ := formed_eq_ok h
  rw [Groups.size_fill, Groups.size_ofPairs, pairs, List.length_map]

/-- The rows of a group are those with its key, in their order. -/
theorem rows_of_mem (h : scheme.formed values = .ok groups) {key : Key} {ids : List ι}
    (member : (key, ids) ∈ groups) :
    ids = (values.filter fun value => scheme.key? value.2 = some key).map (·.1) := by
  have found := lookup_of_mem (ordered h).nodup member
  obtain ⟨keyed, points, gaps, filled, rfl⟩ := formed_eq_ok h
  have inRange := scheme.gaps_inRange filled
  have paired := pairs_inRange keyed
  rw [Groups.lookup_fill inRange (Groups.ordered_ofPairs paired), Groups.lookup_ofPairs paired,
    pairs_of_key keyed] at found
  by_cases hit : key ∈ (scheme.pairs values).map (·.1)
  · simpa [hit, eq_comm] using found
  · have none : (scheme.pairs values).filter (·.1 = key) = [] := by
      rw [List.filter_eq_nil_iff]
      intro pair hpair same
      exact hit (List.mem_map.mpr ⟨pair, hpair, by simpa using same⟩)
    rw [← pairs_of_key keyed, none]
    simp only [hit, if_false, Option.getD_none] at found
    split at found <;> simp_all

/-- Every row is in the group of its key. -/
theorem mem_of_key? (h : scheme.formed values = .ok groups) {value : ι × Json}
    (member : value ∈ values) {key : Key} (hkey : scheme.key? value.2 = some key) :
    key ∈ groups.map (·.1) := by
  obtain ⟨keyed, points, gaps, filled, rfl⟩ := formed_eq_ok h
  have inRange := scheme.gaps_inRange filled
  have paired := pairs_inRange keyed
  have hit : key ∈ (scheme.pairs values).map (·.1) := by
    rw [pairs, List.map_map]
    exact List.mem_map.mpr ⟨value, member, by simp [hkey]⟩
  have found : (((Groups.ofPairs (scheme.pairs values)).fill gaps).lookup key).isSome := by
    rw [Groups.lookup_fill inRange (Groups.ordered_ofPairs paired), Groups.lookup_ofPairs paired,
      if_pos hit]
    split <;> rfl
  obtain ⟨ids, found⟩ := Option.isSome_iff_exists.mp found
  exact List.mem_map_of_mem (f := Prod.fst) (mem_of_lookup found)

/-- A group has the key of a row, or one that fills a gap between the points of rows. -/
theorem key_of_formed (h : scheme.formed values = .ok groups) {key : Key}
    (member : key ∈ groups.map (·.1)) :
    (∃ value ∈ values, ∃ point, scheme.place value.2 = .ok (key, point)) ∨
      ∃ points gaps, (∀ point ∈ points, ∃ value ∈ values, ∃ key,
          scheme.place value.2 = .ok (key, some point)) ∧
        scheme.gaps points = .ok gaps ∧ key ∈ gaps := by
  obtain ⟨places, placed, h⟩ := bind_eq_ok.mp h
  obtain ⟨gaps, filled, h⟩ := bind_eq_ok.mp h
  obtain rfl := Except.ok.inj h
  rcases (Groups.keys_fill _ _ _).mp member with gap | own
  · refine .inr ⟨_, gaps, ?_, filled, gap⟩
    intro point hpoint
    obtain ⟨⟨key, _⟩, hplace, rfl⟩ := List.mem_filterMap.mp hpoint
    obtain ⟨value, hvalue, same⟩ := exists_item placed hplace
    exact ⟨value, hvalue, key, same⟩
  · left
    have first := (Groups.keys_ofPairs _ _).mp own
    obtain ⟨pair, hpair, rfl⟩ := List.mem_map.mp first
    obtain ⟨place, hplace, same⟩ := List.mem_map.mp (List.of_mem_zip hpair).1
    obtain ⟨value, hvalue, computed⟩ := exists_item placed hplace
    rw [← same]
    exact ⟨value, hvalue, place.2, computed⟩

/-- Where no gaps are filled, each group has a row. -/
theorem key_of_mem (h : scheme.formed values = .ok groups)
    (unfilled : ∀ {points keys}, scheme.gaps points = .ok keys → keys = [])
    {group : Key × List ι} (member : group ∈ groups) :
    ∃ value ∈ values, scheme.key? value.2 = some group.1 := by
  have held := List.mem_map_of_mem (f := Prod.fst) member
  rcases key_of_formed h held with ⟨value, hvalue, point, placed⟩ | ⟨points, gaps, -, filled, gap⟩
  · exact ⟨value, hvalue, key?_of_place placed⟩
  · rw [unfilled filled] at gap
    cases gap

/-! ## The groups that are kept -/

theorem size_atLeast (count : Nat) (groups : Groups ι) :
    (Grouping.atLeast count groups).groups.size + (Grouping.atLeast count groups).folded =
      groups.size := by
  induction groups with
  | nil => rfl
  | cons group rest ih =>
      simp only [Grouping.atLeast, Groups.size, List.flatMap_cons, List.length_append] at ih ⊢
      by_cases few : group.2.length < count
      · simp [few, Nat.not_le.mpr few] at ih ⊢
        omega
      · simp [few, Nat.not_lt.mp few] at ih ⊢
        omega

variable {grouping : Grouping ι}

theorem ordered_group (h : scheme.group values = .ok grouping) : grouping.groups.Ordered := by
  obtain ⟨groups, made, rfl⟩ := map_eq_ok.mp h
  exact (ordered made).sublist List.filter_sublist

/-- A row is in a group that is kept, or it is counted among the others. -/
theorem size_group (h : scheme.group values = .ok grouping) :
    grouping.groups.size + grouping.folded = values.length := by
  obtain ⟨groups, made, rfl⟩ := map_eq_ok.mp h
  rw [size_atLeast, size_formed made]

theorem rows_of_group (h : scheme.group values = .ok grouping) {key : Key} {ids : List ι}
    (member : (key, ids) ∈ grouping.groups) :
    ids = (values.filter fun value => scheme.key? value.2 = some key).map (·.1) := by
  obtain ⟨groups, made, rfl⟩ := map_eq_ok.mp h
  exact rows_of_mem made (List.mem_of_mem_filter member)

/-- Rows are counted among the others exactly if some key lost its group. -/
theorem folded_pos_iff (h : scheme.group values = .ok grouping) :
    0 < grouping.folded ↔
      ∃ value ∈ values, ∃ key, scheme.key? value.2 = some key ∧
        key ∉ grouping.groups.map (·.1) := by
  obtain ⟨groups, made, rfl⟩ := map_eq_ok.mp h
  simp only [Grouping.atLeast, List.length_pos_iff_exists_mem, List.mem_flatMap, List.mem_filter,
    decide_eq_true_eq]
  constructor
  · rintro ⟨id, group, ⟨member, short⟩, -⟩
    obtain ⟨value, hvalue, hkey⟩ := key_of_mem made
      (scheme.gaps_eq_nil (Nat.ne_zero_of_lt short)) member
    refine ⟨value, hvalue, group.1, hkey, ?_⟩
    intro kept
    obtain ⟨other, hother, same⟩ := List.mem_map.mp kept
    obtain ⟨hother, long⟩ := List.mem_filter.mp hother
    have equal : other = group := List.inj_on_of_nodup_map (ordered made).nodup hother member same
    rw [equal] at long
    exact absurd short (Nat.not_lt.mpr (of_decide_eq_true long))
  · rintro ⟨value, hvalue, key, hkey, lost⟩
    obtain ⟨group, member, rfl⟩ := List.mem_map.mp (mem_of_key? made hvalue hkey)
    refine ⟨value.1, group, ⟨member, ?_⟩, ?_⟩
    · by_contra long
      exact lost (List.mem_map_of_mem (f := Prod.fst)
        (List.mem_filter.mpr ⟨member, decide_eq_true (Nat.not_lt.mp long)⟩))
    · rw [rows_of_mem made member]
      exact List.mem_map_of_mem (List.mem_filter.mpr ⟨hvalue, by simpa using hkey⟩)

/-! ## Other rows with the same values -/

theorem formed_map (f : ι → κ) :
    scheme.formed (values.map (Prod.map f id)) = Groups.mapRows f <$> scheme.formed values := by
  unfold formed
  rw [List.mapM_map]
  simp only [Function.comp_def, Prod.map_snd, id_eq, List.map_map, map_bind, map_pure,
    Groups.mapRows_fill, Groups.mapRows_ofPairs, Prod.map_fst]
  have firsts : (values.map fun value => f value.1) = (values.map (·.1)).map f :=
    (List.map_map).symm
  simp only [firsts, List.zip_map_right]

theorem mapRows_atLeast (f : ι → κ) (count : Nat) (groups : Groups ι) :
    Grouping.mapRows f (.atLeast count groups) = .atLeast count (groups.mapRows f) := by
  simp only [Grouping.mapRows, Grouping.atLeast, Groups.mapRows, List.filter_map, List.flatMap_map,
    Function.comp_def, Prod.map_snd, List.length_map]
  congr 1
  simp [List.length_flatMap]

theorem group_map (f : ι → κ) :
    scheme.group (values.map (Prod.map f id)) = Grouping.mapRows f <$> scheme.group values := by
  rw [group, group, formed_map, Functor.map_map, Functor.map_map]
  simp only [mapRows_atLeast]

end Scheme

end Rollup
