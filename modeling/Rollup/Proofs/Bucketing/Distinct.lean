import Rollup.Proofs.Aggregation.Reorder
import Rollup.Proofs.Bucketing.Sorted
import Rollup.Proofs.Key.Amount

/-! # Distinct values

Rows share a bucket of terms, or are counted as one value, if their values have one key. So they have
equal values, with one exception: whole numbers past those of 64 bits with a sign are rounded first.
-/

namespace Rollup

/-- The key of a value that has one. -/
def Key.ofScalar (value : Json) : Key := (Key.ofJson? value).getD .missing

/-! ## Terms -/

namespace Terms

theorem keyFor_eq_ok {node : Node} {field : String} {value : Json} {key : Key} :
    keyFor node field value = .ok key ↔ Key.ofJson? value = some key := by
  unfold keyFor
  cases Key.ofJson? value <;> simp

variable {node : Node} {rows : RowSet} {grouping : Grouping (Fin rows.rows.size)}

/-- Grouping by terms sorts the rows by their values, all of which have a key. -/
theorem sorts (h : group node rows = .ok grouping) {field : String} (named : node.field = some field) :
    ∃ values, rows.column node.name field = .ok values ∧
      (∀ value ∈ values, Key.ofJson? value.2 = some (Key.ofScalar value.2)) ∧
      grouping.Sorts Key.ofScalar values ∧
      ∀ value ∈ values, Key.ofScalar value.2 ∈ grouping.keys := by
  rw [group_eq] at h
  obtain ⟨other, required, h⟩ := bind_eq_ok.mp h
  obtain ⟨values, column, h⟩ := bind_eq_ok.mp h
  obtain rfl := Option.some.inj (named.symm.trans (Node.field_of_requireField required))
  have asked : Bucketing.terms.schemeOf node {} field = .ok (scheme node field) := rfl
  have scalar : ∀ value, (scheme node field).key? value = Key.ofJson? value := Bucketing.key?_eq asked
  obtain ⟨groups, made, -⟩ := map_eq_ok.mp h
  have keyed : ∀ value ∈ values, Key.ofJson? value.2 = some (Key.ofScalar value.2) := by
    intro value member
    obtain ⟨key, found⟩ := Option.isSome_iff_exists.mp ((Scheme.formed_eq_ok made).1 value member)
    rw [scalar] at found
    rw [Key.ofScalar, found]
    rfl
  have placed : ∀ value ∈ values, (scheme node field).key? value.2 = some (Key.ofScalar value.2) := by
    simpa only [scalar] using keyed
  exact ⟨values, column, keyed, Scheme.sorts placed h, Scheme.complete placed h rfl⟩

end Terms

/-- Rows sorted by key share a group if their values have one key. -/
theorem Grouping.Sorts.together_iff {set : RowSet} {grouping : Grouping (Fin set.rows.size)}
    {keyOf : Json → Key} {values : List (Fin set.rows.size × Json)} {aggregation column : String}
    (sorts : grouping.Sorts keyOf values) (read : set.column aggregation column = .ok values)
    (complete : ∀ value ∈ values, keyOf value.2 ∈ grouping.keys) {i j : Fin set.rows.size} {a b : Json}
    (hi : (i, a) ∈ values) (hj : (j, b) ∈ values) :
    (∃ group ∈ grouping.groups, i ∈ group.2 ∧ j ∈ group.2) ↔ keyOf a = keyOf b := by
  have mem_idsOf {id : Fin set.rows.size} {value : Json} (hid : (id, value) ∈ values) (key : Key) :
      id ∈ idsOf keyOf values key ↔ keyOf value = key := by
    simp only [idsOf, List.mem_map, List.mem_filter, decide_eq_true_eq]
    constructor
    · rintro ⟨⟨other, value'⟩, ⟨member, same⟩, rfl⟩
      have first := ((RowSet.mem_column read).mp hid).2
      have second := ((RowSet.mem_column read).mp member).2
      rw [Option.some.inj (first.symm.trans second), same]
    · intro same
      exact ⟨_, ⟨hid, same⟩, rfl⟩
  constructor
  · rintro ⟨group, member, first, second⟩
    rw [sorts.own group member, mem_idsOf hi] at first
    rw [sorts.own group member, mem_idsOf hj] at second
    rw [first, second]
  · intro same
    obtain ⟨group, member, key⟩ := List.mem_map.mp (complete _ hi)
    refine ⟨group, member, ?_, ?_⟩
    · rw [sorts.own group member, mem_idsOf hi, key]
    · rw [sorts.own group member, mem_idsOf hj, key, same]

/-! ## Cardinality -/

namespace Metric

variable {node : Node} {rows : RowSet} {field : String}

/-- Two rows that count once each, and once together. -/
def CountedAsOne (node : Node) (rows : RowSet) (i j : Fin rows.rows.size) : Prop :=
  ∀ ids ∈ [[i], [j], [i, j]], countDistinct node (rows.select ids) = .ok 1

/-- Key of the value that a row has. -/
def keyAt (rows : RowSet) (field : String) (id : Fin rows.rows.size) : Key :=
  Key.ofScalar (((rows.row id).lookup field).getD .null)

/-- How many keys are not missing. -/
def countKeys (keys : List Key) : Nat := (keys.filter fun key => !key.isMissing).eraseDups.length

theorem countKeys_pair {a b : Key} : countKeys [a] = 1 ∧ countKeys [b] = 1 ∧ countKeys [a, b] = 1 ↔
    a = b ∧ a.isMissing = false := by
  unfold countKeys
  cases first : a.isMissing <;> cases second : b.isMissing
  · by_cases same : a = b
    · simp [second, same, List.eraseDups_cons]
    · simp [first, second, same, List.eraseDups_cons, Ne.symm same]
  all_goals
    simp only [first, second, List.filter_cons, List.filter_nil, List.eraseDups_nil, Bool.not_true,
      Bool.not_false, if_true, if_false, List.length_nil, reduceCtorEq]
    grind

theorem countDistinct_eq : countDistinct node rows = (do
    let field ← node.requireField
    let values ← rows.column node.name field
    let keys ← values.mapM fun value => Terms.keyFor node field value.2
    return countKeys keys) :=
  rfl

/-- Where values are counted each of them has a key. -/
theorem keyed_of_countDistinct {count : Nat} (named : node.field = some field)
    (h : countDistinct node rows = .ok count) :
    ∀ id ∈ rows.ids, ∃ value, (rows.row id).lookup field = some value ∧
      Key.ofJson? value = some (keyAt rows field id) := by
  intro id hid
  rw [countDistinct_eq] at h
  obtain ⟨other, required, h⟩ := bind_eq_ok.mp h
  obtain rfl := Option.some.inj (named.symm.trans (Node.field_of_requireField required))
  obtain ⟨values, column, h⟩ := bind_eq_ok.mp h
  obtain ⟨keys, keyed, -⟩ := bind_eq_ok.mp h
  obtain ⟨value, found⟩ := RowSet.exists_of_column column hid
  have member := (RowSet.mem_column column).mpr ⟨hid, found⟩
  obtain ⟨key, -, asked⟩ := exists_result keyed member
  rw [Terms.keyFor_eq_ok] at asked
  refine ⟨value, found, ?_⟩
  rw [keyAt, found, Option.getD_some, Key.ofScalar, asked]
  rfl

/-- What is counted are the keys of rows. -/
theorem countDistinct_of_keyed (named : node.field = some field)
    (keyed : ∀ id ∈ rows.ids, ∃ value, (rows.row id).lookup field = some value ∧
      Key.ofJson? value = some (keyAt rows field id)) :
    countDistinct node rows = .ok (countKeys (rows.ids.map (keyAt rows field))) := by
  have column : rows.column node.name field = _ := RowSet.column_eq_ok fun id hid =>
    (keyed id hid).imp fun _ both => both.1
  have keys : (rows.ids.map fun id => (id, ((rows.row id).lookup field).getD .null)).mapM
      (fun value => Terms.keyFor node field value.2) = .ok (rows.ids.map (keyAt rows field)) := by
    rw [mapM_eq_ok, List.forall₂_map_right_iff, List.forall₂_map_left_iff]
    refine List.forall₂_same.mpr fun id hid => ?_
    obtain ⟨value, found, key⟩ := keyed id hid
    rw [found]
    exact Terms.keyFor_eq_ok.mpr key
  rw [countDistinct_eq, Node.requireField, named]
  simp only [bind, Except.bind, column, keys]
  rfl

theorem countedAsOne_iff {count : Nat} (named : node.field = some field)
    (h : countDistinct node rows = .ok count) {i j : Fin rows.rows.size} (hi : i ∈ rows.ids)
    (hj : j ∈ rows.ids) :
    CountedAsOne node rows i j ↔ keyAt rows field i = keyAt rows field j ∧
      (keyAt rows field i).isMissing = false := by
  have keyed := keyed_of_countDistinct named h
  have counted (ids : List (Fin rows.rows.size)) (sub : ids ⊆ rows.ids) :
      countDistinct node (rows.select ids) = .ok (countKeys (ids.map (keyAt rows field))) :=
    countDistinct_of_keyed named fun id hid => keyed id (sub hid)
  simp only [CountedAsOne, List.forall_mem_cons, counted [i] (by simpa), counted [j] (by simpa),
    counted [i, j] (by simp [hi, hj]), Except.ok.injEq, List.map_cons, List.map_nil,
    List.not_mem_nil, false_implies, implies_true, and_true]
  exact countKeys_pair

/-- Rows are counted by those that stand for them: of a choice that has one row for each value, as many
are counted as are chosen. -/
theorem countDistinct_eq_length {count : Nat} (named : node.field = some field)
    (h : countDistinct node rows = .ok count) {chosen : List (Fin rows.rows.size)}
    (sub : chosen ⊆ rows.ids) (present : ∀ i ∈ chosen, CountedAsOne node rows i i)
    (apart : chosen.Pairwise fun i j => ¬ CountedAsOne node rows i j)
    (all : ∀ i ∈ rows.ids, CountedAsOne node rows i i → ∃ j ∈ chosen, CountedAsOne node rows i j) :
    count = chosen.length := by
  have counted := countDistinct_of_keyed named (keyed_of_countDistinct named h)
  rw [h] at counted
  rw [Except.ok.inj counted, ← List.length_map (keyAt rows field)]
  have one {i j : Fin rows.rows.size} (hi : i ∈ rows.ids) (hj : j ∈ rows.ids) :=
    countedAsOne_iff named h hi hj
  refine length_eraseDups ?_ fun key => ?_
  · rw [List.Nodup, List.pairwise_map]
    refine apart.imp_of_mem fun {i j} hi hj differ same => differ ?_
    rw [one (sub hi) (sub hj)]
    exact ⟨same, ((one (sub hi) (sub hi)).mp (present i hi)).2⟩
  · rw [List.mem_filter, List.mem_map, List.mem_map]
    constructor
    · rintro ⟨⟨i, hi, rfl⟩, held⟩
      have own : CountedAsOne node rows i i := (one hi hi).mpr ⟨rfl, by simpa using held⟩
      obtain ⟨j, hj, same⟩ := all i hi own
      exact ⟨j, hj, ((one hi (sub hj)).mp same).1.symm⟩
    · rintro ⟨j, hj, rfl⟩
      have held := ((one (sub hj) (sub hj)).mp (present j hj)).2
      exact ⟨⟨j, sub hj, rfl⟩, by simp [held]⟩

end Metric

/-- Two rows of a column share a bucket of terms though their values are no equal scalars exactly if the
values are confused, and just then they are counted as one value. -/
theorem together_iff_confused {node : Node} {rows : RowSet} {field : String}
    (named : node.field = some field) {i j : Fin rows.rows.size} (hi : i ∈ rows.ids)
    (hj : j ∈ rows.ids) {a b : Json} (ha : (rows.row i).lookup field = some a)
    (hb : (rows.row j).lookup field = some b) (first : a.InRange) (second : b.InRange) :
    (∀ grouping, Terms.group node rows = .ok grouping →
      ((∃ group ∈ grouping.groups, i ∈ group.2 ∧ j ∈ group.2) ∧ ¬ SameScalar a b ↔ a.Confused b)) ∧
    (∀ count, Metric.countDistinct node rows = .ok count →
      (Metric.CountedAsOne node rows i j ∧ ¬ SameScalar a b ↔ a.Confused b)) := by
  constructor
  · intro grouping grouped
    obtain ⟨values, column, keyed, sorts, complete⟩ := Terms.sorts grouped named
    have member := (RowSet.mem_column column).mpr ⟨hi, ha⟩
    have member' := (RowSet.mem_column column).mpr ⟨hj, hb⟩
    rw [sorts.together_iff column complete member member']
    exact Key.confused_iff first second (keyed _ member) (keyed _ member')
  · intro count counted
    have keyed {id : Fin rows.rows.size} {value : Json} (hid : id ∈ rows.ids)
        (read : (rows.row id).lookup field = some value) :
        Key.ofJson? value = some (Metric.keyAt rows field id) := by
      obtain ⟨other, found, key⟩ := Metric.keyed_of_countDistinct named counted id hid
      rwa [← Option.some.inj (read.symm.trans found)] at key
    rw [Metric.countedAsOne_iff named counted hi hj,
      ← Key.confused_iff first second (keyed hi ha) (keyed hj hb)]
    refine and_congr_left fun differ => and_iff_left_of_imp fun same => ?_
    -- Only nulls have the missing key, and two of them are equal.
    by_contra missing
    have null : Metric.keyAt rows field i = .missing := by
      simpa [Key.isMissing] using missing
    obtain rfl := Key.eq_of_ofJson? (b := .null) rfl (keyed hi ha) (congrArg some null.symm)
    obtain rfl := Key.eq_of_ofJson? (b := .null) rfl (keyed hj hb) (congrArg some (null.symm.trans same))
    exact differ .null

/-! ## Two large numbers -/

def perId : Node := ⟨"ids", "terms", .bucketing, some "id", [], []⟩

def distinctIds : Node := ⟨"ids", "cardinality", .metric, some "id", [], []⟩

def entities : RowSet :=
  .all #[[("id", .ofInt 9223372036854775808)], [("id", .ofInt 9223372036854775809)]]

def oldest : Fin entities.rows.size := ⟨0, by decide⟩

def youngest : Fin entities.rows.size := ⟨1, by decide⟩

/-- Two entities share a bucket and are counted as one, though their numbers differ. -/
theorem together_iff_confused_entities :
    ∃ grouping, Terms.group perId entities = .ok grouping ∧
      (∃ group ∈ grouping.groups, oldest ∈ group.2 ∧ youngest ∈ group.2) ∧
      Metric.countDistinct distinctIds entities = .ok 1 ∧
      Metric.CountedAsOne distinctIds entities oldest youngest ∧
      ¬ SameScalar (.ofInt 9223372036854775808) (.ofInt 9223372036854775809) := by
  have read (n : Int) (within : (Number.int n).InRange) : (Json.ofInt n).InRange := by
    intro m is
    cases is
    exact within
  have first := read 9223372036854775808 ⟨by decide, by decide⟩
  have second := read 9223372036854775809 ⟨by decide, by decide⟩
  have large : (Number.int 9223372036854775808).Large := by
    unfold Number.Large Word64.greatest
    decide
  have confused : (Json.ofInt 9223372036854775808).Confused (.ofInt 9223372036854775809) :=
    ⟨_, rfl, _, rfl, by norm_num [Number.amount], .inl large, ⟨rfl, rfl⟩, by decide +kernel⟩
  have apart (node : Node) (named : node.field = some "id") :=
    together_iff_confused (i := oldest) (j := youngest) named (by decide) (by decide) rfl rfl first second
  have grouped : ∃ grouping, Terms.group perId entities = .ok grouping := ⟨_, rfl⟩
  have counted : Metric.countDistinct distinctIds entities = .ok 1 := by decide +kernel
  obtain ⟨grouping, grouped⟩ := grouped
  obtain ⟨together, differ⟩ := ((apart perId rfl).1 grouping grouped).mpr confused
  obtain ⟨same, -⟩ := ((apart distinctIds rfl).2 1 counted).mpr confused
  exact ⟨grouping, grouped, together, counted, same, differ⟩

end Rollup
