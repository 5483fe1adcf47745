import Rollup.Catalog.Ndjson

/-! # Tables in a directory

Each file of a directory whose name ends in `.ndjson` is a table of the name without that ending.
-/

namespace Rollup

/-- What a path leads to. -/
inductive Place where
  | file (text : String)
  | directory (entries : List (String × Place))
  deriving Inhabited

namespace Place

/-- Table of a file name: what stands before its last point, if `ndjson` stands behind it. A point in
front of everything starts no ending. -/
def tableOf? (fileName : String) : Option String :=
  let reversed := fileName.toList.reverse
  let stem := (reversed.dropWhile (· ≠ '.')).drop 1
  if reversed.takeWhile (· ≠ '.') = "ndjson".toList.reverse ∧ ¬ stem.isEmpty then
    some (String.ofList stem.reverse)
  else none

/-- Load the table of one entry of a directory, if it is one. -/
def loadEntry (catalog : Catalog) (entry : String × Place) : Except Error Catalog :=
  match tableOf? entry.1, entry.2 with
  | none, _ => .ok catalog
  | some _, .directory _ => .error (.io "Is a directory (os error 21)")
  | some table, .file text => do return Entries.set catalog table (← Ndjson.rowsOfText text)

/-- Load all tables of a directory. A path that leads nowhere has none. -/
def load : Option Place → Except Error Catalog
  | none => .ok []
  | some (.file _) => .error (.io "Not a directory (os error 20)")
  | some (.directory entries) => entries.foldlM loadEntry []

end Place

end Rollup
