import Rollup.Entries

/-! # TOML values and tables

A document is a table. What may still be added to a table depends on how it came to be: only tables
that are there for the sake of others can be opened again. A name is set at most once.
-/

namespace Rollup.Toml

/-- How a table came to be. -/
inductive Origin where
  /-- Under a header of its own, or as the whole document. -/
  | header
  /-- On the way to the table of a header. -/
  | passed
  /-- On the way along a dotted key. -/
  | dotted
  /-- Between braces. -/
  | inline
  deriving DecidableEq, Repr, Inhabited

/-- A value. A moment is kept as it is written. -/
inductive Value where
  | string (text : String)
  | integer (n : Int)
  | float (x : Float)
  | bool (b : Bool)
  | moment (text : String)
  | array (items : List Value)
  | table (origin : Origin) (entries : List (String × Value))
  /-- Tables under several headers of one name. -/
  | tables (items : List (List (String × Value)))
  deriving Repr, Inhabited

/-- A table and how it came to be. -/
structure Table where
  origin : Origin
  entries : Entries Value
  deriving Repr, Inhabited

namespace Table

/-- Whether a table is there for the sake of others. -/
def isImplicit (table : Table) : Bool := table.origin = .passed || table.origin = .dotted

def value (table : Table) : Value := .table table.origin table.entries

def set (table : Table) (name : String) (value : Value) : Table :=
  { table with entries := Entries.set table.entries name value }

/-- Change the table that a path leads to. Tables that are missing on the way are made; a way along a
dotted key passes only through tables that are there for the sake of others. A list of tables is
entered at its last one. -/
def changeAt (dotted : Bool) (change : Table → Option Table) : List String → Table → Option Table
  | [], table => change table
  | name :: path, table =>
      match table.entries.lookup name with
      | none => do
          let below ← changeAt dotted change path ⟨if dotted then .dotted else .passed, []⟩
          return table.set name below.value
      | some (.table origin entries) => do
          let below : Table := ⟨origin, entries⟩
          if origin = .inline ∨ (dotted ∧ !below.isImplicit) then none
          return table.set name (← changeAt dotted change path below).value
      | some (.tables items) => do
          let below ← changeAt dotted change path ⟨.header, ← items.getLast?⟩
          return table.set name (.tables (items.dropLast ++ [below.entries]))
      | some _ => none

/-- Set a name that is not yet set. Behind a dotted key only the tables of dotted keys take values. -/
def addValue (dotted : Bool) (name : String) (value : Value) (table : Table) : Option Table :=
  if Entries.has table.entries name ∨ (table.origin = .dotted) ≠ dotted then none
  else some (table.set name value)

/-- Set the value of a key. -/
def add (table : Table) (path : List String) (name : String) (value : Value) : Option Table :=
  changeAt (!path.isEmpty) (addValue (!path.isEmpty) name value) path table

/-- The table between braces that has the given keys and values. -/
def ofPairs (pairs : List ((List String × String) × Value)) : Option Table :=
  pairs.foldlM (fun table ((path, name), value) => table.add path name value) ⟨.inline, []⟩

/-- Open a table under a header. -/
def openTable (name : String) (table : Table) : Option Table :=
  match table.entries.lookup name with
  | none => some (table.set name (.table .header []))
  | some (.table .passed entries) => some (table.set name (.table .header entries))
  | some _ => none

/-- Open one more table of a list. -/
def openItem (name : String) (table : Table) : Option Table :=
  match table.entries.lookup name with
  | none => some (table.set name (.tables [[]]))
  | some (.tables items) => some (table.set name (.tables (items ++ [[]])))
  | some _ => none

end Table

end Rollup.Toml
