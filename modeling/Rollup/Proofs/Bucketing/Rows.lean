import Rollup.Proofs.Bucketing.Methods
import Rollup.Proofs.Rows

/-! # Grouping rows

The rows of a group are those that the node counts under its key. Every row is in one group that is
kept, or is counted among the others.
-/

namespace Rollup

theorem columnOf_eq_ok {aggregation column : String} {rows : List Row} {values : List (Row × Json)}
    (h : columnOf aggregation column rows = .ok values) :
    values = rows.map fun row => (row, (row.lookup column).getD .null) := by
  induction mapM_eq_ok.mp h with
  | nil => rfl
  | cons first rest ih =>
      obtain ⟨value, found, same⟩ := bind_eq_ok.mp first
      cases same
      rw [List.map_cons, ← ih (mapM_eq_ok.mpr rest), cell_eq_ok.mp found]
      rfl

namespace Bucketing

/-- Put rows at hand into groups. -/
def groupRows (method : Bucketing) (node : Node) (limits : Limits) (rows : List Row) :
    Except Error (Grouping Row) := do
  let field ← node.requireField
  let scheme ← method.schemeOf node limits field
  scheme.group (← columnOf node.name field rows)

theorem groupRows_toList (method : Bucketing) (node : Node) (limits : Limits)
    (set : RowSet) : method.groupRows node limits set.toList =
      Grouping.mapRows set.row <$> method.group node set limits := by
  rw [group_eq, groupRows]
  cases node.requireField with
  | error e => rfl
  | ok field =>
      simp only [bind, Except.bind]
      cases method.schemeOf node limits field with
      | error e => rfl
      | ok scheme =>
          rw [RowSet.columnOf_toList]
          cases set.column node.name field with
          | error e => rfl
          | ok values => exact scheme.group_map set.row

variable {method : Bucketing} {node : Node} {limits : Limits} {rows : List Row}
  {grouping : Grouping Row}

/-- Rows are grouped by the scheme of the node, which tells them apart by their keys. -/
theorem groupRows_eq_ok (is : Method.ofName? node.typeName = some (.bucketing method))
    (h : method.groupRows node limits rows = .ok grouping) :
    ∃ (field : String) (scheme : Scheme) (valueOf : Row → Json),
      method.schemeOf node limits field = .ok scheme ∧
        scheme.group (rows.map fun row => (row, valueOf row)) = .ok grouping ∧
        ∀ row, scheme.key? (valueOf row) = node.keyOf? row := by
  obtain ⟨field, required, h⟩ := bind_eq_ok.mp h
  obtain ⟨scheme, asked, h⟩ := bind_eq_ok.mp h
  obtain ⟨values, read, h⟩ := bind_eq_ok.mp h
  obtain rfl := columnOf_eq_ok read
  refine ⟨field, scheme, _, asked, h, fun row => ?_⟩
  rw [key?_eq asked, Node.keyOf?, is, Node.field_of_requireField required]

theorem ordered_groupRows (h : method.groupRows node limits rows = .ok grouping) :
    grouping.groups.Ordered := by
  obtain ⟨field, -, h⟩ := bind_eq_ok.mp h
  obtain ⟨scheme, -, h⟩ := bind_eq_ok.mp h
  obtain ⟨values, -, h⟩ := bind_eq_ok.mp h
  exact scheme.ordered_group h

/-- Equal values have a group only where a row has the value. -/
theorem row_of_terms (is : Method.ofName? node.typeName = some (.bucketing .terms))
    (h : terms.groupRows node limits rows = .ok grouping) {group : Key × List Row}
    (member : group ∈ grouping.groups) : ∃ row ∈ rows, node.keyOf? row = some group.1 := by
  obtain ⟨field, scheme, valueOf, asked, h, keys⟩ := groupRows_eq_ok is h
  cases asked
  obtain ⟨groups, made, rfl⟩ := map_eq_ok.mp h
  have unfilled {points keys} (filled : (Terms.scheme node field).gaps points = .ok keys) :
      keys = [] := by
    cases filled
    rfl
  obtain ⟨value, hvalue, hkey⟩ :=
    Scheme.key_of_mem made unfilled (List.mem_of_mem_filter member)
  obtain ⟨row, hrow, rfl⟩ := List.mem_map.mp hvalue
  exact ⟨row, hrow, (keys row).symm.trans hkey⟩

variable (is : Method.ofName? node.typeName = some (.bucketing method))
  (h : method.groupRows node limits rows = .ok grouping)

include is h

theorem size_groupRows : grouping.groups.size + grouping.folded = rows.length := by
  obtain ⟨field, scheme, valueOf, -, h, -⟩ := groupRows_eq_ok is h
  rw [scheme.size_group h, List.length_map]

theorem rows_of_groupRows {key : Key} {ids : List Row} (member : (key, ids) ∈ grouping.groups) :
    ids = rows.filter fun row => node.keyOf? row = some key := by
  obtain ⟨field, scheme, valueOf, -, h, keys⟩ := groupRows_eq_ok is h
  rw [scheme.rows_of_group h member, List.filter_map, List.map_map]
  simp [Function.comp_def, keys]

theorem folded_pos_groupRows : 0 < grouping.folded ↔
    ∃ row ∈ rows, ∃ key, node.keyOf? row = some key ∧ key ∉ grouping.groups.map (·.1) := by
  obtain ⟨field, scheme, valueOf, -, h, keys⟩ := groupRows_eq_ok is h
  rw [scheme.folded_pos_iff h]
  simp [keys]

end Bucketing

end Rollup
