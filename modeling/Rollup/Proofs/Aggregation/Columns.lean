import Rollup.Proofs.Aggregation.Selection

/-! # The columns that are read

What is built of rows depends on the columns that the node and those below it name, and on nothing
else in the rows.
-/

namespace Rollup

mutual

/-- The columns that a node and those below it name. -/
def Node.named : Node → List String
  | ⟨_, _, _, field, _, children⟩ => field.toList ++ Forest.named children

/-- The columns that the nodes of a forest name, at all levels. -/
def Forest.named : List Node → List String
  | [] => []
  | node :: nodes => node.named ++ Forest.named nodes

end

theorem named_of_field {node : Node} {field : String} (h : node.field = some field) :
    field ∈ node.named := by
  obtain ⟨name, typeName, kind, own, params, children⟩ := node
  obtain rfl : own = some field := h
  rw [Node.named]
  exact List.mem_append_left _ (List.mem_singleton_self field)

theorem named_subset_of_mem {node : Node} {nodes : List Node} (member : node ∈ nodes) :
    node.named ⊆ Forest.named nodes := by
  induction nodes with
  | nil => cases member
  | cons first nodes ih =>
      intro column named
      rw [Forest.named]
      rcases List.mem_cons.mp member with rfl | member
      · exact List.mem_append_left _ named
      · exact List.mem_append_right _ (ih member named)

theorem named_children_subset (node : Node) : Forest.named node.children ⊆ node.named := by
  obtain ⟨name, typeName, kind, field, params, children⟩ := node
  rw [Node.named]
  exact List.subset_append_right _ _

namespace RowSet

/-- Row sets whose rows have the same values in some columns, each row in its place. -/
structure Alike (columns : List String) (set set' : RowSet) where
  place : Fin set.rows.size → Fin set'.rows.size
  ids : set'.ids = set.ids.map place
  lookup : ∀ id, ∀ column ∈ columns,
    (set'.row (place id)).lookup column = (set.row id).lookup column

namespace Alike

variable {set set' : RowSet}

section Columns

variable {columns : List String} (alike : Alike columns set set')

def mono {fewer : List String} (sub : fewer ⊆ columns) : Alike fewer set set' :=
  ⟨alike.place, alike.ids, fun id column member => alike.lookup id column (sub member)⟩

def select (ids : List (Fin set.rows.size)) :
    Alike columns (set.select ids) (set'.select (ids.map alike.place)) :=
  ⟨alike.place, rfl, alike.lookup⟩

theorem column {column : String} (member : column ∈ columns) (aggregation : String) :
    set'.column aggregation column =
      List.map (Prod.map alike.place id) <$> set.column aggregation column := by
  rw [column_eq, column_eq, alike.ids, List.mapM_map, ← mapM_then]
  congr 1
  funext id
  simp only [bind_assoc, pure_bind]
  change cell aggregation column (set'.row (alike.place id)) >>= _ = _
  rw [cell, alike.lookup id column member]
  rfl

include alike in
theorem agree {node : Node} (named : ∀ field, node.field = some field → field ∈ columns) :
    Metric.Agree node set' set := by
  intro field asked
  have member := named field asked
  simp only [toList, alike.ids, List.map_map]
  exact List.map_congr_left fun id _ => alike.lookup id field member

end Columns

variable {node : Node} (alike : Alike node.named set set')

theorem group (method : Bucketing) (limits : Limits) :
    method.group node set' limits =
      Grouping.mapRows alike.place <$> method.group node set limits := by
  rw [Bucketing.group_eq, Bucketing.group_eq]
  unfold Node.requireField
  cases asked : node.field with
  | none => rfl
  | some field =>
      simp only [bind, Except.bind]
      cases method.schemeOf node limits field with
      | error e => rfl
      | ok scheme =>
          rw [alike.column (named_of_field asked)]
          cases set.column node.name field with
          | error e => rfl
          | ok values => exact scheme.group_map alike.place

/-- The same groups become buckets. -/
theorem selectBuckets (limits : Limits) (method : Bucketing) :
    Rollup.selectBuckets limits method node set' =
      Prod.map (List.map (Candidate.map alike.place)) id <$>
        Rollup.selectBuckets limits method node set := by
  have selected (set : RowSet) : Rollup.selectBuckets limits method node set =
      Selection.select (fun metric child ids => metric.compute child (set.select ids)) node limits
        method (method.group node set limits) := rfl
  rw [selected, selected, alike.group]
  refine Selection.select_map (fun metric child member ids => ?_) limits method _
  refine Metric.compute_congr metric ((alike.select ids).agree fun field asked => ?_)
  exact named_children_subset node (named_subset_of_mem member (named_of_field asked))

end Alike

end RowSet

/-! ## Building -/

open RowSet in
mutual

/-- What is built of rows depends on the columns that are named. -/
theorem build_alike (limits : Limits) : ∀ (node : Node) (set set' : RowSet),
    Alike node.named set set' → build limits set' node = build limits set node
  | ⟨name, typeName, kind, field, params, children⟩, set, set', alike => by
      rw [build, build]
      congr 1
      funext method
      cases method with
      | metric metric =>
          have same := Metric.compute_congr metric (alike.agree fun field => named_of_field)
          simp only [same]
      | pipeline pipeline => rfl
      | bucketing method =>
          dsimp only
          rw [alike.selectBuckets, liftM_map, bind_map_left]
          congr 1
          funext selected
          have below (candidate : Candidate (Fin set.rows.size)) :=
            buildAll_alike limits children _ _ candidate.metrics
              ((alike.select candidate.ids).mono
                (named_children_subset ⟨name, typeName, kind, field, params, children⟩))
          simp only [Prod.map, List.length_map, List.mapM_map, Function.comp_def, Candidate.count_map]
          simp only [Candidate.map, below]
          rfl

theorem buildAll_alike (limits : Limits) : ∀ (nodes : List Node) (set set' : RowSet)
    (metrics : Entries Value), Alike (Forest.named nodes) set set' →
      buildAll limits set' metrics nodes = buildAll limits set metrics nodes
  | [], set, set', metrics, alike => by
      rw [buildAll, buildAll]
  | node :: nodes, set, set', metrics, alike => by
      have first := build_alike limits node set set'
        (alike.mono (named_subset_of_mem List.mem_cons_self))
      have rest := buildAll_alike limits nodes set set' metrics
        (alike.mono (by rw [Forest.named]; exact List.subset_append_right _ _))
      rw [buildAll, buildAll, first, rest]

end

end Rollup
