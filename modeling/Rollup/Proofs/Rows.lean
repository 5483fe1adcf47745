import Rollup.Metric.Basic
import Rollup.Proofs.Success

/-! # Selected rows

A row set stands for the list of its rows. A column is read from each row by itself, and a metric
sees nothing but the values of its column.
-/

namespace Rollup

/-- The value of a column that a row promised to have. -/
def cell (aggregation column : String) (row : Row) : Except Error Json :=
  match row.lookup column with
  | some value => .ok value
  | none => .error (.missingColumn aggregation column)

theorem cell_eq_ok {aggregation column : String} {row : Row} {value : Json} :
    cell aggregation column row = .ok value ↔ row.lookup column = some value := by
  unfold cell
  cases row.lookup column <;> simp

/-- Each of some rows with its value of a column. -/
def columnOf (aggregation column : String) (rows : List Row) : Except Error (List (Row × Json)) :=
  rows.mapM fun row => do return (row, ← cell aggregation column row)

namespace RowSet

variable (set : RowSet) (aggregation column : String)

/-- The row of an id. -/
def row (id : Fin set.rows.size) : Row :=
  match id with
  | ⟨i, _⟩ => set.rows[i]

theorem toList_all (rows : List Row) : (all rows.toArray).toList = rows := by
  apply List.ext_get
  · simp [toList, all]
  · intro i _ _
    simp [toList, all]

theorem column_eq : set.column aggregation column =
    set.ids.mapM fun id => do return (id, ← cell aggregation column (set.row id)) := by
  unfold RowSet.column cell
  congr 1
  funext id
  obtain ⟨i, bound⟩ := id
  unfold row
  cases set.rows[i].lookup column <;> rfl

theorem columnOf_toList : columnOf aggregation column set.toList =
    List.map (Prod.map set.row id) <$> set.column aggregation column := by
  rw [column_eq, columnOf, toList, List.mapM_map, ← mapM_then]
  simp only [bind_assoc, pure_bind]
  rfl

variable {set aggregation column} {id : Fin set.rows.size}

theorem mem_column {values : List (Fin set.rows.size × Json)}
    (h : set.column aggregation column = .ok values) {value : Json} :
    (id, value) ∈ values ↔ id ∈ set.ids ∧ (set.row id).lookup column = some value := by
  rw [column_eq] at h
  constructor
  · intro member
    obtain ⟨other, hother, read⟩ := exists_item h member
    obtain ⟨found, read, same⟩ := bind_eq_ok.mp read
    cases same
    exact ⟨hother, cell_eq_ok.mp read⟩
  · rintro ⟨hid, found⟩
    obtain ⟨result, member, read⟩ := exists_result h hid
    rw [cell_eq_ok.mpr found] at read
    cases read
    exact member

theorem exists_of_column {values : List (Fin set.rows.size × Json)}
    (h : set.column aggregation column = .ok values) (hid : id ∈ set.ids) :
    ∃ value, (set.row id).lookup column = some value := by
  rw [column_eq] at h
  obtain ⟨result, -, read⟩ := exists_result h hid
  obtain ⟨value, read, -⟩ := bind_eq_ok.mp read
  exact ⟨value, cell_eq_ok.mp read⟩

theorem column_eq_ok (found : ∀ id ∈ set.ids, ∃ value, (set.row id).lookup column = some value) :
    set.column aggregation column =
      .ok (set.ids.map fun id => (id, ((set.row id).lookup column).getD .null)) := by
  rw [column_eq, mapM_eq_ok, List.forall₂_map_right_iff]
  refine List.forall₂_same.mpr fun id hid => ?_
  obtain ⟨value, found⟩ := found id hid
  rw [cell_eq_ok.mpr found, found]
  rfl

variable (set aggregation column)

/-- The values of a column. -/
theorem column_values : List.map Prod.snd <$> set.column aggregation column =
    set.toList.mapM (cell aggregation column) := by
  rw [column_eq, toList, List.mapM_map, ← mapM_then]
  simp only [bind_assoc, pure_bind, bind_pure]
  rfl

end RowSet

theorem Node.field_of_requireField {node : Node} {field : String}
    (h : node.requireField = .ok field) : node.field = some field := by
  unfold requireField at h
  split at h
  · cases h
    assumption
  · cases h

namespace Metric

variable {node : Node} {set set' : RowSet}

/-- Rows that agree on the column of a node, row by row. -/
def Agree (node : Node) (set set' : RowSet) : Prop :=
  ∀ field, node.field = some field →
    set.toList.map (·.lookup field) = set'.toList.map (·.lookup field)

/-- What is computed of the values of a column is the same for rows that agree on it. -/
theorem column_congr {α : Type} (same : Agree node set set')
    {f : String → List (Fin set.rows.size × Json) → Except Error α}
    {g : String → List (Fin set'.rows.size × Json) → Except Error α}
    (alike : ∀ field values values', values.map (·.2) = values'.map (·.2) →
      f field values = g field values') :
    (node.requireField >>= fun field => set.column node.name field >>= f field) =
      (node.requireField >>= fun field => set'.column node.name field >>= g field) := by
  unfold Node.requireField
  cases hfield : node.field with
  | none => rfl
  | some field =>
      apply bind_congr_map (v := List.map Prod.snd) (w := List.map Prod.snd) _ (alike field)
      rw [RowSet.column_values, RowSet.column_values]
      apply mapM_congr_map (same field hfield)
      intro row row' looked
      rw [cell, cell, looked]

theorem numbers_congr (same : Agree node set set') : numbers node set = numbers node set' := by
  refine column_congr same fun field values values' alike => ?_
  congr 1
  apply mapM_congr_map alike
  rintro ⟨_, value⟩ ⟨_, _⟩ rfl
  rfl

theorem countValues_congr (same : Agree node set set') :
    countValues node set = countValues node set' := by
  refine column_congr same fun field values values' alike => ?_
  have kept := congrArg (fun values => (values.filter fun value => !value.isNull).length) alike
  simp only [List.filter_map, List.length_map] at kept
  exact congrArg pure kept

theorem countDistinct_congr (same : Agree node set set') :
    countDistinct node set = countDistinct node set' := by
  refine column_congr same fun field values values' alike => ?_
  congr 1
  apply mapM_congr_map alike
  rintro ⟨_, value⟩ ⟨_, _⟩ rfl
  rfl

/-- A metric sees the values of its column alone. -/
theorem compute_congr (metric : Metric) (same : Agree node set set') :
    metric.compute node set = metric.compute node set' := by
  cases metric <;>
    simp only [compute, numbers_congr same, countValues_congr same, countDistinct_congr same]

theorem compute_of_toList (metric : Metric) (same : set.toList = set'.toList) :
    metric.compute node set = metric.compute node set' :=
  compute_congr metric fun _ _ => by rw [same]

end Metric

end Rollup
