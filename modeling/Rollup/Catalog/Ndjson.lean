import Rollup.Catalog.Basic
import Rollup.Json.Reader

/-! # Tables as text

Each line of a text that is not blank holds one object. Objects within it are flattened: their
columns have the names of all members on the way, with points between them.
-/

namespace Rollup.Ndjson

/-- Name of a column below another one; at the top there is none above it. -/
def columnName (above name : String) : String := if above.isEmpty then name else above ++ "." ++ name

mutual

/-- Set a column of a row, or the columns below it. -/
def addColumn (row : Row) (column : String) : Json → Row
  | .object members => addColumns row column members
  | value => Entries.set row column value

/-- Set the columns for all members of an object. -/
def addColumns (row : Row) (above : String) : List (String × Json) → Row
  | [] => row
  | (name, value) :: members => addColumns (addColumn row (columnName above name) value) above members

end

/-- The row of a line. -/
def rowOfLine (line : List Char) : Except Error Row :=
  match Json.ofText line with
  | .error fault => .error (.json fault)
  | .ok (.object members) => .ok (addColumns [] "" members)
  | .ok _ => .error (.source "each NDJSON line must be a JSON object")

/-- The rows of a text. -/
def rowsOfText (text : String) : Except Error (List Row) :=
  (Text.filledLines text.toList).mapM rowOfLine

end Rollup.Ndjson
