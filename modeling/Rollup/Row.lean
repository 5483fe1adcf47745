import Rollup.Error
import Rollup.Json.Basic

/-! # Rows

A row is flat: it has values by column. A row set is a selection of the rows of one fetch; narrowing
it copies no row.
-/

namespace Rollup

/-- Values by column. -/
abbrev Row := Entries Json

/-- Some of the rows of one fetch, in order. A row is known by its place in the fetch. -/
structure RowSet where
  rows : Array Row
  ids : List (Fin rows.size)

namespace RowSet

/-- All rows of a fetch. -/
def all (rows : Array Row) : RowSet := ⟨rows, List.finRange rows.size⟩

def size (set : RowSet) : Nat := set.ids.length

/-- Another selection of the same rows. -/
def select (set : RowSet) (ids : List (Fin set.rows.size)) : RowSet := { set with ids }

/-- The selected rows. -/
def toList (set : RowSet) : List Row := set.ids.map fun id => set.rows[id]

/-- The value of a column in each selected row. A row that lacks the column breaks the promise of
the fetch; a null is a value like any other. -/
def column (set : RowSet) (aggregation column : String) :
    Except Error (List (Fin set.rows.size × Json)) :=
  set.ids.mapM fun id =>
    match set.rows[id].lookup column with
    | some value => .ok (id, value)
    | none => .error (.missingColumn aggregation column)

end RowSet

end Rollup
