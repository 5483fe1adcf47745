import Rollup.Filter

/-! # Tables in memory

A catalog holds tables by name. Fetching projects the rows that fit onto the columns asked for; a
column that a row never set reads as null.
-/

namespace Rollup

/-- Tables by name. -/
abbrev Catalog := Entries (List Row)

namespace Catalog

def table (catalog : Catalog) (name : String) : Except Error (List Row) :=
  match catalog.lookup name with
  | some rows => .ok rows
  | none => .error (.tableNotFound name)

/-- Whether a row passes a filter; without one every row does. -/
def accepts (filter : Option Json) (row : Row) : Except Error Bool :=
  match filter with
  | none => .ok true
  | some query => Filter.accepts row query

/-- The rows of a table that pass a filter. -/
def filtered (filter : Option Json) : List Row → Except Error (List Row)
  | [] => .ok []
  | row :: rows => do
      let accepted ← accepts filter row
      let rest ← filtered filter rows
      return if accepted then row :: rest else rest

/-- The columns asked for, each once. -/
def project (columns : List String) (row : Row) : Row :=
  Entries.ofList (columns.map fun column => (column, (row.lookup column).getD .null))

/-- How many rows of a table pass a filter. -/
def count (catalog : Catalog) (table : String) (filter : Option Json) : Except Error Nat := do
  return (← filtered filter (← catalog.table table)).length

/-- The rows that pass the filter and lie in the buckets of the key path. -/
def fetch (catalog : Catalog) (scope : Scope) : Except Error (List Row) := do
  let rows ← filtered scope.filter (← catalog.table scope.table)
  let rows := rows.filter fun row => scope.keyPath.all (Filter.acceptsKey row)
  return rows.map (project scope.columns)

/-- Names of the tables, in ascending order. -/
def tableNames (catalog : Catalog) : List String := (Entries.names catalog).mergeSort

/-- The catalog as a source of rows. -/
def source (catalog : Catalog) : Source := { count := catalog.count, fetch := catalog.fetch }

end Catalog

end Rollup
