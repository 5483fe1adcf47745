import Rollup.Proofs.Binary64.Faithful
import Rollup.Proofs.Bucketing.Distinct

/-! # Values counted and values grouped

Grouping by terms finds the same values as counting does: there is one group for each distinct value that is
counted, and these groups hold the values that are not null.
-/

namespace Rollup

/-- The groups of values that are there. -/
def Grouping.present {ι : Type} (grouping : Grouping ι) : Groups ι :=
  grouping.groups.filter fun group => !group.1.isMissing

theorem Grouping.keys_present {ι : Type} (grouping : Grouping ι) :
    grouping.present.map (·.1) = grouping.keys.filter fun key => !key.isMissing := by
  rw [keys, List.filter_map]
  rfl

namespace Terms

variable {node : Node} {rows : RowSet} {grouping : Grouping (Fin rows.rows.size)} {field : String}

/-- Nothing is filled, so that each group has the key of a value. -/
theorem value_of_key (h : group node rows = .ok grouping) (named : node.field = some field)
    {values : List (Fin rows.rows.size × Json)} (column : rows.column node.name field = .ok values)
    {key : Key} (member : key ∈ grouping.keys) : ∃ value ∈ values, Key.ofScalar value.2 = key := by
  rw [group_eq] at h
  obtain ⟨other, required, h⟩ := bind_eq_ok.mp h
  obtain rfl := Option.some.inj (named.symm.trans (Node.field_of_requireField required))
  obtain ⟨others, column', h⟩ := bind_eq_ok.mp h
  obtain rfl := Except.ok.inj (column'.symm.trans column)
  obtain ⟨groups, made, rfl⟩ := map_eq_ok.mp h
  obtain ⟨group, kept, rfl⟩ := List.mem_map.mp member
  have unfilled {points keys} (filled : (scheme node field).gaps points = .ok keys) : keys = [] := by
    cases filled
    rfl
  obtain ⟨value, hvalue, found⟩ := Scheme.key_of_mem made unfilled (List.mem_of_mem_filter kept)
  have asked : Bucketing.terms.schemeOf node {} field = .ok (scheme node field) := rfl
  have keyed : Key.ofJson? value.2 = some group.1 := (Bucketing.key?_eq asked value.2).symm.trans found
  refine ⟨value, hvalue, ?_⟩
  rw [Key.ofScalar, keyed]
  rfl

variable (h : group node rows = .ok grouping) (named : node.field = some field)

include h named

/-- The groups stand for the keys of the rows. -/
theorem mem_keys_iff {key : Key} :
    key ∈ grouping.keys ↔ ∃ id ∈ rows.ids, Metric.keyAt rows field id = key := by
  obtain ⟨values, column, -, -, complete⟩ := sorts h named
  constructor
  · intro member
    obtain ⟨⟨id, value⟩, hvalue, rfl⟩ := value_of_key h named column member
    obtain ⟨hid, found⟩ := (RowSet.mem_column column).mp hvalue
    refine ⟨id, hid, ?_⟩
    rw [Metric.keyAt, found]
    rfl
  · rintro ⟨id, hid, rfl⟩
    obtain ⟨value, found⟩ := RowSet.exists_of_column column hid
    have member := complete _ ((RowSet.mem_column column).mpr ⟨hid, found⟩)
    rw [Metric.keyAt, found]
    exact member

/-- Where rows can be grouped by their values, the values have keys. -/
theorem keyed_of_group : ∀ id ∈ rows.ids, ∃ value, (rows.row id).lookup field = some value ∧
    Key.ofJson? value = some (Metric.keyAt rows field id) := by
  intro id hid
  obtain ⟨values, column, keyed, -, -⟩ := sorts h named
  obtain ⟨value, found⟩ := RowSet.exists_of_column column hid
  refine ⟨value, found, ?_⟩
  rw [Metric.keyAt, found]
  exact keyed _ ((RowSet.mem_column column).mpr ⟨hid, found⟩)

theorem nodup_keys : grouping.keys.Nodup := by
  obtain ⟨values, column, keyed, sorted, complete⟩ := sorts h named
  refine sorted.ascending.imp fun before same => ?_
  rw [same, Key.compare_self] at before
  cases before

/-- As many distinct values are counted as there are groups. -/
theorem countDistinct_of_group {counting : Node} (counted : counting.field = some field) :
    Metric.countDistinct counting rows = .ok grouping.present.length := by
  rw [Metric.countDistinct_of_keyed counted (keyed_of_group h named)]
  congr 1
  rw [← List.length_map (·.1), Grouping.keys_present]
  refine length_eraseDups ((nodup_keys h named).filter _) fun key => ?_
  rw [List.mem_filter, List.mem_filter, List.mem_map, mem_keys_iff h named]

theorem length_present_le : grouping.present.length ≤ rows.size := by
  have within : grouping.present.map (·.1) ⊆ rows.ids.map (Metric.keyAt rows field) := by
    intro key member
    rw [Grouping.keys_present] at member
    exact List.mem_map.mpr ((mem_keys_iff h named).mp (List.mem_of_mem_filter member))
  have distinct : (grouping.present.map (·.1)).Nodup := by
    rw [Grouping.keys_present]
    exact (nodup_keys h named).filter _
  simpa [RowSet.size] using (List.subperm_of_subset distinct within).length_le

/-- As many values are counted as there are rows in the groups. -/
theorem countValues_of_group {counting : Node} (counted : counting.field = some field) :
    Metric.countValues counting rows = .ok grouping.present.size := by
  obtain ⟨values, column, keyed, sorted, complete⟩ := sorts h named
  have found : ∀ id ∈ rows.ids, ∃ value, (rows.row id).lookup field = some value :=
    fun id hid => RowSet.exists_of_column column hid
  have same : rows.column counting.name field = .ok values :=
    (RowSet.column_eq_ok found).trans ((RowSet.column_eq_ok found).symm.trans column)
  have distinct : (grouping.present.map (·.1)).Nodup := (nodup_keys h named).sublist
    (List.filter_sublist.map _)
  have own : ∀ group ∈ grouping.present, group.2 = idsOf Key.ofScalar values group.1 :=
    fun group member => sorted.own group (List.mem_of_mem_filter member)
  rw [Metric.countValues, Node.requireField, counted]
  simp only [bind, Except.bind, same]
  show Except.ok _ = Except.ok _
  rw [size_of_own distinct own]
  congr 2
  apply List.filter_congr
  intro value member
  have null : Key.ofScalar value.2 = .missing ↔ value.2.isNull := by
    rw [← Key.ofJson?_eq_missing, keyed value member, Option.some.injEq]
  rw [Bool.eq_iff_iff, Grouping.keys_present, decide_eq_true_eq, List.mem_filter,
    and_iff_right (complete value member)]
  simp [Key.isMissing, null]

end Terms

namespace Metric

/-- A metric counts: it is computed, and its value is a number of exactly this amount. -/
def Counts (metric : Metric) (node : Node) (rows : RowSet) (count : Nat) : Prop :=
  ∃ x, metric.compute node rows = .ok (.single (some x)) ∧ x.isFinite ∧ Binary64.amount x = count

theorem countValues_le {node : Node} {rows : RowSet} {count : Nat}
    (h : countValues node rows = .ok count) : count ≤ rows.size := by
  obtain ⟨field, -, h⟩ := bind_eq_ok.mp h
  obtain ⟨values, column, h⟩ := bind_eq_ok.mp h
  obtain rfl := Except.ok.inj h
  rw [RowSet.size, ← length_of_mapM column]
  exact List.length_filter_le _ _

theorem counts_iff {metric : Metric} {node : Node} {rows : RowSet} {held count : Nat}
    (computed : metric.compute node rows = .ok (.single (some (Binary64.ofInt held))))
    (faithful : Binary64.Faithful held) : metric.Counts node rows count ↔ held = count := by
  have amount : Binary64.amount (Binary64.ofInt held) = held := faithful.amount
  constructor
  · rintro ⟨x, same, -, exact⟩
    rw [computed] at same
    cases same
    exact_mod_cast amount.symm.trans exact
  · rintro rfl
    exact ⟨_, computed, faithful.finite, amount⟩

end Metric

/-- Grouping by terms agrees with the two metrics that count. Where rows can be grouped by the values of a
field, there are `n` groups of values that are there, which hold `r` rows together, if and only if the
cardinality of the field is `n` and it has `r` values. -/
theorem grouped_iff_counted {byValue distinct values : Node} {rows : RowSet} {field : String}
    {grouping : Grouping (Fin rows.rows.size)} (grouped : Terms.group byValue rows = .ok grouping)
    (named : ∀ node ∈ [byValue, distinct, values], node.field = some field)
    (exact : ∀ count : Nat, count ≤ rows.size → Binary64.Faithful count) (n r : Nat) :
    grouping.present.length = n ∧ grouping.present.size = r ↔
      Metric.cardinality.Counts distinct rows n ∧ Metric.valueCount.Counts values rows r := by
  simp only [List.forall_mem_cons] at named
  obtain ⟨named, named', named'', -⟩ := named
  have ofDistinct := Terms.countDistinct_of_group grouped named named'
  have ofValues := Terms.countValues_of_group grouped named named''
  have first : Metric.cardinality.compute distinct rows =
      .ok (.single (some (Binary64.ofInt grouping.present.length))) :=
    bind_eq_ok.mpr ⟨_, ofDistinct, rfl⟩
  have second : Metric.valueCount.compute values rows =
      .ok (.single (some (Binary64.ofInt grouping.present.size))) :=
    bind_eq_ok.mpr ⟨_, ofValues, rfl⟩
  rw [Metric.counts_iff first (exact _ (Terms.length_present_le grouped named)),
    Metric.counts_iff second (exact _ (Metric.countValues_le ofValues))]

/-! ## Sizes of shirts -/

def perSize : Node := ⟨"sizes", "terms", .bucketing, some "size", [], []⟩

def distinctSizes : Node := ⟨"sizes", "cardinality", .metric, some "size", [], []⟩

def sizesGiven : Node := ⟨"sizes", "value_count", .metric, some "size", [], []⟩

/-- A size may be written as a whole number, as a floating-point number or as a text, or be unknown. -/
def shirts : RowSet :=
  .all #[[("size", .ofInt 40)], [("size", .null)], [("size", .ofFloat 40.0)], [("size", .ofInt 40)],
    [("size", .string "40")]]

theorem grouped_iff_counted_shirts :
    (∃ grouping, Terms.group perSize shirts = .ok grouping ∧ grouping.present.length = 3 ∧
        grouping.present.size = 4) ∧
      Metric.cardinality.Counts distinctSizes shirts 3 ∧ Metric.valueCount.Counts sizesGiven shirts 4 := by
  have exact : ∀ count : Nat, count ≤ shirts.size → Binary64.Faithful count := by
    intro count within
    have few : shirts.size = 5 := by decide
    exact Binary64.faithful_of_lt (by omega)
  have grouped : ∃ grouping, Terms.group perSize shirts = .ok grouping ∧ grouping.present.length = 3 ∧
      grouping.present.size = 4 := by
    refine ⟨_, rfl, ?_, ?_⟩
    · decide +kernel
    · decide +kernel
  have named : ∀ node ∈ [perSize, distinctSizes, sizesGiven], node.field = some "size" := by
    simp [perSize, distinctSizes, sizesGiven]
  obtain ⟨grouping, grouped, counts⟩ := grouped
  exact ⟨⟨grouping, grouped, counts⟩, (grouped_iff_counted grouped named exact 3 4).mp counts⟩

end Rollup
