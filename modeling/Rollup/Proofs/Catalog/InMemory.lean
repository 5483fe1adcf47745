import Rollup.Proofs.Catalog.Execution
import Rollup.Proofs.Engine.Aggregate

/-! # Fetching is aggregating in memory

A request over a catalog has the answer that its forest has over the rows of the table that pass the
filter, a column that a row lacks being null.
-/

namespace Rollup

namespace Catalog

/-- The rows that pass a filter. -/
def passing (filter : Option Json) (rows : List Row) : List Row :=
  rows.filter fun row => (accepts filter row).toOption.getD false

theorem filtered_eq {filter : Option Json} {rows : List Row}
    (evaluates : ∀ row ∈ rows, ∃ accepted, accepts filter row = .ok accepted) :
    filtered filter rows = .ok (passing filter rows) := by
  induction rows with
  | nil => rfl
  | cons row rows ih =>
      rw [List.forall_mem_cons] at evaluates
      obtain ⟨accepted, evaluated⟩ := evaluates.1
      rw [filtered, evaluated, ih evaluates.2]
      cases accepted <;> simp [passing, evaluated, bind, Except.bind, pure, Except.pure, Except.toOption]

theorem matching_eq {catalog : Catalog} {request : Request} {rows : List Row}
    (found : catalog.table request.table = .ok rows)
    (evaluates : ∀ row ∈ rows, ∃ accepted, accepts request.filter row = .ok accepted) :
    catalog.matching request = .ok (passing request.filter rows) := by
  rw [matching, found]
  exact filtered_eq evaluates

end Catalog

namespace Engine

variable {source : Source} {limits : Limits} {request : Request}

theorem buildAll_cons {set : RowSet} {node : Node} (plain : ¬ node.isPipeline) (nodes : List Node) :
    buildAll limits set [] (node :: nodes) = do
      let result ← build limits set node
      return (node.name, result) :: (← buildAll limits set [] nodes) := by
  rw [buildAll, if_neg plain]
  rfl

/-- Fetching rows for each node at the top is building the nodes from one set of rows, if they see the
same in it. -/
theorem mapM_fetchAndBuild {set : RowSet} {rowsFor : Node → List Row} {nodes : List Node}
    (fetch : ∀ node, source.fetch (scopeOf request node) = .ok (rowsFor node))
    (same : ∀ node ∈ nodes, build limits (.all (rowsFor node).toArray) node = build limits set node) :
    (nodes.filter fun node => !node.isPipeline).mapM (fetchAndBuild source limits request) =
      buildAll limits set [] nodes := by
  induction nodes with
  | nil => rfl
  | cons node nodes ih =>
      rw [List.forall_mem_cons] at same
      have ih := ih same.2
      by_cases is : node.isPipeline
      · rw [List.filter_cons_of_neg (by simp [is]), buildAll, if_pos is]
        exact ih
      · rw [List.filter_cons_of_pos (by simp [is]), List.mapM_cons, ih, buildAll_cons is, ← same.1]
        have fetched : fetchAndBuild source limits request node = do
            return (node.name, ← build limits (.all (rowsFor node).toArray) node) := by
          rw [fetchAndBuild, fetch]
          rfl
        simp only [fetched, bind_assoc, pure_bind]

/-- A node builds the same of the columns that are fetched for it as of the whole rows. -/
theorem build_project (valid : Forest.validate request.nodes = .ok ()) (rows : List Row) {node : Node}
    (member : node ∈ request.nodes) :
    build limits (.all (rows.map (Catalog.project node.columns)).toArray) node =
      build limits (.all (rows.map
        (Catalog.withNulls (Forest.named request.nodes))).toArray) node := by
  refine build_alike limits node _ _ (alikeOfMap rows fun row column named => ?_)
  rw [Catalog.lookup_project, if_pos (named_subset_columns valid member named),
    Catalog.lookup_withNulls, if_pos (named_subset_of_mem member named)]

/-- If a request is about some rows, fetching them answers it as aggregating them does. -/
theorem execute_eq_aggregate [Memory] {catalog : Catalog} {rows : List Row}
    (matching : catalog.matching request = .ok rows) :
    (execute catalog.source limits request false).answer =
      some (aggregate limits request.nodes
        (rows.map (Catalog.withNulls (Forest.named request.nodes)))) := by
  have fetch (node : Node) : catalog.source.fetch (scopeOf request node) =
      .ok (rows.map (Catalog.project node.columns)) := by
    show catalog.fetch _ = _
    rw [Catalog.fetch_matching, matching]
    rfl
  have count : catalog.source.count request.table request.filter = .ok rows.length := by
    show catalog.count _ _ = _
    rw [Catalog.count_matching, matching]
    rfl
  rw [execute_prompt rfl, count, aggregate, List.length_map]
  cases valid : Forest.validate request.nodes with
  | error e => rfl
  | ok =>
      rw [mapM_fetchAndBuild fetch fun _ => build_project valid rows]
      rfl

/-- Fetching is aggregating in memory. If the filter of a request evaluates on every row of its table,
then the request has the answer, or the error, that its forest has over the rows that pass, in the
order of the table, each column that the forest names and a row lacks being null. And no request over a
catalog ends for want of a column. -/
theorem fetching_is_aggregating [Memory] (catalog : Catalog) (limits : Limits) (request : Request) :
    (∀ rows, catalog.table request.table = .ok rows →
      (∀ row ∈ rows, ∃ accepted, Catalog.accepts request.filter row = .ok accepted) →
        (execute catalog.source limits request false).answer =
          some (aggregate limits request.nodes ((Catalog.passing request.filter rows).map
            (Catalog.withNulls (Forest.named request.nodes))))) ∧
      ∀ aggregation column, (execute catalog.source limits request false).answer ≠
        some (.error (.missingColumn aggregation column)) := by
  constructor
  · intro rows found evaluates
    exact execute_eq_aggregate (Catalog.matching_eq found evaluates)
  · intro aggregation column absent
    rcases execute_raises absent with fault | fault
    · cases fault with
      | building fault => cases fault with | request fault => cases fault
      | query fault => cases fault with | intro _ same => cases same
    · cases fault with
      | request fault => cases fault

/-! ## Visits that lack a city or a country -/

def sparse : List Row :=
  [[("country", .string "fr"), ("city", .string "lyon")],
   [("city", .string "rome")],
   [("country", .string "fr")]]

def withCountry : Request :=
  ⟨"visits", some (.object [("exists", .object [("field", .string "country")])]), [country]⟩

def filled : List Row :=
  [[("country", .string "fr"), ("city", .string "lyon")],
   [("country", .string "fr"), ("city", .null)]]

theorem fetching_is_aggregating_sparse :
    (execute (Catalog.source [("visits", sparse)]) {} withCountry false).answer =
      some (aggregate {} [country] filled) := by
  have evaluates : ∀ row ∈ sparse,
      ∃ accepted, Catalog.accepts withCountry.filter row = .ok accepted := by
    intro row member
    exact ⟨_, rfl⟩
  have filled_eq : (Catalog.passing withCountry.filter sparse).map
      (Catalog.withNulls (Forest.named withCountry.nodes)) = filled := by cbv
  have fetched :=
    (fetching_is_aggregating [("visits", sparse)] {} withCountry).1 sparse rfl evaluates
  rw [filled_eq] at fetched
  exact fetched

end Engine

end Rollup
