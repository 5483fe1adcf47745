import Rollup.Catalog.Basic
import Rollup.Proofs.Aggregation.Columns
import Rollup.Proofs.Aggregation.Validation

/-! # Projected rows

A fetch brings the columns that a node and those below it name. What else the rows of a table have
does not matter, and a column that a row lacks reads as null.
-/

namespace Rollup

namespace Catalog

/-- The rows that a request is about. -/
def matching (catalog : Catalog) (request : Request) : Except Error (List Row) := do
  filtered request.filter (← catalog.table request.table)

theorem count_matching (catalog : Catalog) (request : Request) :
    catalog.count request.table request.filter = List.length <$> catalog.matching request := by
  rw [count, matching, map_eq_pure_bind, bind_assoc]

/-- Every node at the top is brought the rows that the request is about. -/
theorem fetch_matching (catalog : Catalog) (request : Request) (node : Node) :
    catalog.fetch (Engine.scopeOf request node) =
      List.map (project node.columns) <$> catalog.matching request := by
  have all (rows : List Row) : rows.filter (fun row => [].all (Filter.acceptsKey row)) = rows :=
    List.filter_true rows
  rw [fetch, matching, map_eq_pure_bind, bind_assoc]
  simp only [Engine.scopeOf, all]

/-- Set a column to null unless the row has it. -/
def addNull (row : Row) (column : String) : Row :=
  if row.has column then row else row.set column .null

/-- A row in which no column of a list is absent. -/
def withNulls (columns : List String) (row : Row) : Row := columns.foldl addNull row

theorem lookup_addNull (row : Row) (column name : String) :
    (addNull row column).lookup name =
      if name = column then some ((row.lookup column).getD .null) else row.lookup name := by
  unfold addNull Entries.has
  cases found : row.lookup column with
  | none => simp only [Option.isSome_none, Bool.false_eq_true, if_false, Entries.lookup_set,
      Option.getD_none]
  | some value =>
      by_cases same : name = column
      · simp [same, found]
      · simp [same]

theorem lookup_withNulls (columns : List String) (row : Row) (name : String) :
    (withNulls columns row).lookup name =
      if name ∈ columns then some ((row.lookup name).getD .null) else row.lookup name := by
  unfold withNulls
  induction columns generalizing row with
  | nil => simp
  | cons column columns ih =>
      rw [List.foldl_cons, ih, lookup_addNull]
      by_cases same : name = column
      · simp [same]
      · simp [same]

theorem lookup_setAll (value : String → Json) (columns : List String) (row : Row) (name : String) :
    (row.setAll (columns.map fun column => (column, value column))).lookup name =
      if name ∈ columns then some (value name) else row.lookup name := by
  unfold Entries.setAll
  induction columns generalizing row with
  | nil => simp
  | cons column columns ih =>
      rw [List.map_cons, List.foldl_cons, ih, Entries.lookup_set]
      by_cases same : name = column
      · simp [same]
      · simp [same]

theorem lookup_project (columns : List String) (row : Row) (name : String) :
    (project columns row).lookup name =
      if name ∈ columns then some ((row.lookup name).getD .null) else none :=
  lookup_setAll (fun column => (row.lookup column).getD .null) columns [] name

end Catalog

/-! ## The columns asked for -/

theorem mem_addColumn {columns : List String} {field : Option String} {column : String}
    (h : column ∈ columns ∨ field = some column) : column ∈ Node.addColumn columns field := by
  cases field with
  | none => exact h.resolve_right nofun
  | some own =>
      rw [Option.some.injEq] at h
      change column ∈ if own ∈ columns then columns else columns ++ [own]
      by_cases known : own ∈ columns
      · rw [if_pos known]
        rcases h with h | rfl
        · exact h
        · exact known
      · rw [if_neg known, List.mem_append, List.mem_singleton]
        exact h.imp_right Eq.symm

theorem field_of_validate {pipeline : Pipeline} {node : Node}
    (h : pipeline.validate node = .ok ()) : node.field = none := by
  unfold Pipeline.validate at h
  cases asked : node.field with
  | none => rfl
  | some field =>
      simp only [asked] at h
      cases h

theorem named_of_pipeline {node : Node} {method : Method} (checked : node.Checked method)
    (is : node.kind = .pipeline) : node.named = [] := by
  have leaf := checked.leaf (by simp [is])
  have field : node.field = none := by
    cases method with
    | pipeline pipeline => exact field_of_validate checked.parameters
    | _ => cases checked.kind.trans is
  obtain ⟨name, typeName, kind, own, params, children⟩ := node
  obtain rfl : own = none := field
  obtain rfl : children = [] := leaf
  rw [Node.named, Forest.named]
  rfl

mutual

/-- What accepted nodes name is asked for. -/
theorem mem_addColumns : ∀ (node : Node) (columns : List String),
    (∃ method, node.Checked method) → Forest.validate node.children = .ok () →
      ∀ column, column ∈ columns ∨ column ∈ node.named → column ∈ Node.addColumns columns node
  | ⟨name, typeName, kind, field, params, children⟩, columns, checked, valid, column, named => by
      rw [Node.addColumns]
      split
      · obtain ⟨method, checked⟩ := checked
        rw [named_of_pipeline checked ‹_›] at named
        simpa using named
      · refine mem_addColumnsOf children _ (Forest.checked_of_validate valid)
          (Forest.below_of_validate valid) column ?_
        rw [Node.named, List.mem_append, Option.mem_toList] at named
        rcases named with known | own | below
        · exact .inl (mem_addColumn (.inl known))
        · exact .inl (mem_addColumn (.inr own))
        · exact .inr below

theorem mem_addColumnsOf : ∀ (nodes : List Node) (columns : List String),
    (∀ node ∈ nodes, ∃ method, node.Checked method) →
      (∀ node ∈ nodes, Forest.validate node.children = .ok ()) →
      ∀ column, column ∈ columns ∨ column ∈ Forest.named nodes →
        column ∈ Node.addColumnsOf columns nodes
  | [], columns, checked, valid, column, named => by
      rw [Node.addColumnsOf]
      simpa [Forest.named] using named
  | node :: nodes, columns, checked, valid, column, named => by
      rw [List.forall_mem_cons] at checked valid
      rw [Node.addColumnsOf]
      refine mem_addColumnsOf nodes _ checked.2 valid.2 column ?_
      have first := mem_addColumns node columns checked.1 valid.1 column
      rw [Forest.named, List.mem_append] at named
      rcases named with known | own | later
      · exact .inl (first (.inl known))
      · exact .inl (first (.inr own))
      · exact .inr later

end

/-- The columns asked for cover all that an accepted node and those below it name. -/
theorem named_subset_columns {nodes : List Node} (valid : Forest.validate nodes = .ok ())
    {node : Node} (member : node ∈ nodes) : node.named ⊆ node.columns := fun column named =>
  mem_addColumns node [] (Forest.checked_of_validate valid node member)
    (Forest.below_of_validate valid node member) column (.inr named)

/-! ## Rows that are fetched -/

section Rows

variable {columns : List String} {f g : Row → Row}

/-- The rows of a list, changed in two ways that some columns do not show. -/
def alikeOfMap (rows : List Row) (same : ∀ row, ∀ column ∈ columns,
    (g row).lookup column = (f row).lookup column) :
    RowSet.Alike columns (.all (rows.map f).toArray) (.all (rows.map g).toArray) where
  place := Fin.cast (by simp [RowSet.all])
  ids := by
    apply List.ext_getElem
    · simp [RowSet.all]
    · intro i _ _
      simp [RowSet.all]
      rfl
  lookup := by
    intro id column member
    simp only [RowSet.all, RowSet.row, List.getElem_toArray, List.getElem_map]
    exact same _ column member

end Rows

end Rollup
