import Rollup.Proofs.Bucketing.Starts
import Rollup.Proofs.Key.Amount

/-! # The group of the nulls

All nulls of a field, and no other values, are counted under the missing key, whichever way values are
grouped. A gap is never filled with it. It is shown as null, as is a number that is not finite: a key of a
histogram is computed of an index, which is in range, and can still leave the range of numbers.
-/

namespace Rollup

/-! ## Keys that are shown as null -/

namespace Key

theorem toJson_eq_null {key : Key} :
    key.toJson = .null ↔ key = .missing ∨ ∃ x, key = .float x ∧ ¬ x.isFinite := by
  cases key with
  | float x =>
      show (if x.isFinite then Json.number (.float x) else .null) = .null ↔ _
      by_cases finite : x.isFinite <;> simp [finite]
  | _ => simp [toJson, Json.ofInt]

/-- The key of a value that can be written is shown as null only for null. -/
theorem toJson_of_ofJson? {value : Json} (read : value.InRange) {key : Key}
    (h : ofJson? value = some key) : key.toJson = .null ↔ key = .missing := by
  rw [toJson_eq_null, or_iff_left_iff_imp]
  rintro ⟨x, rfl, infinite⟩
  cases value with
  | number n =>
      rcases Number.key_cases h with ⟨i, -, same⟩ | ⟨-, same⟩
      · cases same
      · rw [Key.float.inj same, isFinite_unsignedZero_iff] at infinite
        exact absurd (Number.isFinite_toFloat (read n rfl)) infinite
  | _ => cases h

end Key

namespace Histogram.Params

variable {params : Params} {index : Int}

/-- The number that the key of an index is. -/
def numberAt (params : Params) (index : Int) : Float :=
  Binary64.ofInt index * params.interval + params.offset

theorem keyAt_ne_missing : params.keyAt index ≠ .missing := nofun

/-- The key of an index is shown as null if its number is not finite. -/
theorem toJson_keyAt : (params.keyAt index).toJson = .null ↔ ¬ (params.numberAt index).isFinite := by
  rw [Key.toJson_eq_null, ← isFinite_unsignedZero_iff]
  constructor
  · rintro (missing | ⟨x, same, infinite⟩)
    · exact absurd missing keyAt_ne_missing
    · rwa [← Key.float.inj same] at infinite
  · exact fun infinite => .inr ⟨_, rfl, infinite⟩

end Histogram.Params

/-! ## Keys of groups -/

namespace Histogram

variable {node : Node} {limits : Limits} {params : Params} {field : String}

theorem keyAt_of_place {value : Json} {key : Key} {point : Option Int}
    (h : (scheme node limits params field).place value = .ok (key, point)) :
    key = .missing ∨ ∃ index, key = params.keyAt index := by
  obtain ⟨index, -, same⟩ := bind_eq_ok.mp h
  cases index with
  | none => exact .inl (congrArg Prod.fst (Except.ok.inj same)).symm
  | some index => exact .inr ⟨index, (congrArg Prod.fst (Except.ok.inj same)).symm⟩

theorem keyAt_of_gaps {points : List Int} {gaps : List Key}
    (h : (scheme node limits params field).gaps points = .ok gaps) :
    ∀ key ∈ gaps, ∃ index, key = params.keyAt index := by
  simp only [scheme] at h
  split at h
  · cases h
    simp
  · obtain ⟨span, -, h⟩ := bind_eq_ok.mp h
    cases span with
    | none =>
        cases h
        simp
    | some span =>
        obtain ⟨filled, -, h⟩ := bind_eq_ok.mp h
        cases h
        intro key member
        obtain ⟨index, -, rfl⟩ := List.mem_map.mp member
        exact ⟨index, rfl⟩

end Histogram

namespace Bucketing

variable {method : Bucketing} {node : Node} {limits : Limits} {rows : List Row}
  {grouping : Grouping Row} {group : Key × List Row}

theorem ite_eq_missing {null : Bool} {key : Option Key} (present : key ≠ some .missing) :
    (if null then some .missing else key) = some .missing ↔ null := by
  cases null <;> simp [present]

/-- A value has the missing key exactly if it is null: the key of a bucket on a line is never it. -/
theorem keyOf?_eq_missing {value : Json} :
    method.keyOf? node value = some .missing ↔ value.isNull := by
  cases method with
  | terms => exact Key.ofJson?_eq_missing
  | histogram =>
      refine ite_eq_missing fun same => ?_
      obtain ⟨params, -, same⟩ := Option.bind_eq_some_iff.mp same
      obtain ⟨index, -, same⟩ := Option.bind_eq_some_iff.mp same
      exact Histogram.Params.keyAt_ne_missing (Option.some.inj same)
  | dateHistogram =>
      refine ite_eq_missing fun same => ?_
      obtain ⟨interval, -, same⟩ := Option.bind_eq_some_iff.mp same
      obtain ⟨start, -, same⟩ := Option.bind_eq_some_iff.mp same
      cases same

/-- The key of a bucket of a histogram is a number that is not finite. -/
def Overflows (method : Bucketing) (node : Node) (key : Key) : Prop :=
  method = histogram ∧ ∃ params index, Histogram.Params.ofNode node = .ok params ∧
    key = params.keyAt index ∧ ¬ (params.numberAt index).isFinite

/-- A group of a histogram is that of the nulls, or its key is that of an index. -/
theorem keyAt_of_groupRows (is : Method.ofName? node.typeName = some (.bucketing .histogram))
    (h : histogram.groupRows node limits rows = .ok grouping) (member : group ∈ grouping.groups) :
    ∃ params, Histogram.Params.ofNode node = .ok params ∧
      (group.1 = .missing ∨ ∃ index, group.1 = params.keyAt index) := by
  obtain ⟨field, scheme, valueOf, asked, h, -⟩ := groupRows_eq_ok is h
  obtain ⟨params, made, asked⟩ := bind_eq_ok.mp asked
  cases asked
  refine ⟨params, made, ?_⟩
  obtain ⟨groups, formed, rfl⟩ := map_eq_ok.mp h
  have held := List.mem_map_of_mem (f := Prod.fst) (List.mem_of_mem_filter member)
  rcases Scheme.key_of_formed formed held with ⟨value, -, point, placed⟩ | ⟨points, gaps, -, filled, gap⟩
  · exact Histogram.keyAt_of_place placed
  · exact .inr (Histogram.keyAt_of_gaps filled _ gap)

theorem keyOf?_of_named {field : String} (is : Method.ofName? node.typeName = some (.bucketing method))
    (named : node.field = some field) (row : Row) :
    node.keyOf? row = method.keyOf? node ((row.lookup field).getD .null) := by
  rw [Node.keyOf?, is, named]

/-- The key of a group is shown as null if it is the missing key, and else only if it overflows. -/
theorem toJson_of_groupRows {field : String}
    (is : Method.ofName? node.typeName = some (.bucketing method)) (named : node.field = some field)
    (h : method.groupRows node limits rows = .ok grouping)
    (read : ∀ row ∈ rows, ∀ value ∈ row.lookup field, value.InRange) (member : group ∈ grouping.groups) :
    group.1.toJson = .null ↔ group.1 = .missing ∨ method.Overflows node group.1 := by
  cases method with
  | terms =>
      obtain ⟨row, hrow, keyed⟩ := row_of_terms is h member
      rw [keyOf?_of_named is named] at keyed
      have known : ((row.lookup field).getD .null).InRange := by
        cases found : row.lookup field with
        | none => exact nofun
        | some value => exact read row hrow value found
      rw [Key.toJson_of_ofJson? known keyed]
      simp [Overflows]
  | histogram =>
      obtain ⟨params, made, key⟩ := keyAt_of_groupRows is h member
      rcases key with missing | ⟨index, key⟩
      · rw [missing]
        simp [Key.toJson]
      · have present : group.1 ≠ .missing := by
          rw [key]
          exact Histogram.Params.keyAt_ne_missing
        rw [or_iff_right present]
        constructor
        · intro null
          rw [key, Histogram.Params.toJson_keyAt] at null
          exact ⟨rfl, params, index, made, key, null⟩
        · rintro ⟨-, params, index, -, key, infinite⟩
          rw [key, Histogram.Params.toJson_keyAt]
          exact infinite
  | dateHistogram =>
      obtain ⟨interval, -, key⟩ := startAt_of_groupRows is h member
      rw [Key.toJson_eq_null]
      rcases key with missing | ⟨n, start⟩
      · simp [missing]
      · simp [start, Overflows]

end Bucketing

/-! ## Rows with a null -/

/-- Whether a row has a null in a column, or lacks the column. -/
def Row.isNullAt (field : String) (row : Row) : Bool := ((row.lookup field).getD .null).isNull

theorem Node.keyOf?_eq_missing {method : Bucketing} {node : Node} {field : String}
    (is : Method.ofName? node.typeName = some (.bucketing method)) (named : node.field = some field)
    {row : Row} : node.keyOf? row = some .missing ↔ row.isNullAt field := by
  rw [Bucketing.keyOf?_of_named is named, Bucketing.keyOf?_eq_missing, Row.isNullAt]

end Rollup
