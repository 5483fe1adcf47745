import Rollup.Proofs.Aggregation.Failures
import Rollup.Proofs.Catalog.Projection
import Rollup.Proofs.Engine.Prompt
import Rollup.Proofs.Filter.Rejection

/-! # Requests over a catalog

A request that is not cancelled gets an answer. When that is an error, it is never that a column is
absent: what is fetched for a node has every column that the node and those below it name.
-/

namespace Rollup

/-- Errors that a request over a catalog may end with. -/
inductive OfCatalog : Error → Prop where
  | building {e : Error} : OfBuilding e → OfCatalog e
  | query {e : Error} : OfQuery e → OfCatalog e
  | table {name : String} : OfCatalog (.tableNotFound name)

namespace Catalog

variable {catalog : Catalog}

theorem filtered_raises (filter : Option Json) (rows : List Row) :
    RaisesOnly OfCatalog (filtered filter rows) := by
  induction rows with
  | nil => exact .ok
  | cons row rows ih =>
      have accepted : RaisesOnly OfCatalog (accepts filter row) := by
        unfold accepts
        split
        · exact .ok
        · exact (Filter.accepts_raises row _).imp fun _ => .query
      exact .bind accepted fun _ => .bind ih fun _ => .ok

theorem table_raises (name : String) : RaisesOnly OfCatalog (catalog.table name) := by
  unfold table
  split
  · exact .ok
  · exact .error .table

theorem matching_raises (request : Request) : RaisesOnly OfCatalog (catalog.matching request) :=
  .bind (table_raises request.table) (filtered_raises request.filter)

theorem count_raises (request : Request) :
    RaisesOnly OfCatalog (catalog.count request.table request.filter) := by
  rw [count_matching]
  exact .map (matching_raises request)

theorem fetch_raises (request : Request) (node : Node) :
    RaisesOnly OfCatalog (catalog.fetch (Engine.scopeOf request node)) := by
  rw [fetch_matching]
  exact .map (matching_raises request)

/-- Rows are fetched with all the columns asked for. -/
theorem complete_of_fetch {request : Request} {node : Node} {rows : List Row}
    (fetched : catalog.fetch (Engine.scopeOf request node) = .ok rows) :
    (RowSet.all rows.toArray).Complete node.columns := by
  rw [fetch_matching] at fetched
  obtain ⟨matching, _, rfl⟩ := map_eq_ok.mp fetched
  intro id column member
  simp only [RowSet.all, RowSet.row, List.getElem_toArray, List.getElem_map]
  rw [lookup_project, if_pos member]
  rfl

end Catalog

namespace Engine

variable {catalog : Catalog} {limits : Limits} {request : Request}

theorem fetchAndBuild_raises {node : Node} (plain : ¬ node.isPipeline)
    (covered : node.named ⊆ node.columns) :
    RaisesWork OfCatalog (fetchAndBuild catalog.source limits request node) := by
  intro created
  rw [fetchAndBuild_run]
  cases fetched : catalog.source.fetch (scopeOf request node) with
  | error e => exact .error (Catalog.fetch_raises request node _ fetched)
  | ok rows =>
      have complete := (Catalog.complete_of_fetch fetched).mono
        (by simpa [Forest.named] using covered : Forest.named [node] ⊆ node.columns)
      have built := (build_raises limits node _ plain created).imp fun _ fault =>
        OfCatalog.building (fault.ofBuilding complete)
      show RaisesOnly OfCatalog ((build limits (.all rows.toArray) node).run created >>= _)
      exact .bind built fun _ => .ok

/-- A request over a catalog ends with an error about the request, about a value that the rows hold,
about the limit on buckets, or about the table; or else as resolving its pipelines may end. -/
theorem execute_raises [Memory] {e : Error}
    (h : (execute catalog.source limits request false).answer = some (.error e)) :
    OfCatalog e ∨ Forest.OfResolving request.nodes e := by
  rw [execute_prompt rfl, Option.some.injEq] at h
  cases valid : Forest.validate request.nodes with
  | error fault =>
      rw [valid] at h
      cases h
      exact .inl (.building (.request (Forest.validate_raises _ _ valid)))
  | ok =>
      rw [valid] at h
      refine RaisesOnly.bind ((Catalog.count_raises request).imp fun _ => Or.inl) (fun count => ?_) e h
      refine .bind (RaisesWork.mapM (fun node member => ?_) 0) fun built => ?_
      · obtain ⟨member, plain⟩ := List.mem_filter.mp member
        exact (fetchAndBuild_raises (by simpa using plain) (named_subset_columns valid member)).imp
          fun _ => .inl
      · exact .bind ((resolve_raises _ _).imp fun _ => .inr) fun _ => .ok

end Engine

end Rollup
