import Rollup.Json.Printer
import Rollup.Json.Raw
import Rollup.Text.Shown

/-! # Faults of a request body

A body is read as it stands in the text, so its faults of form and of content are found in the order
of the text, and the first one is told.
-/

namespace Rollup.Search

open Json (Raw)

/-- What stands where something else is expected. -/
inductive Found where
  | null
  | bool (value : Bool)
  | number (value : Number)
  | string (value : String)
  | sequence
  | map
  deriving DecidableEq, Repr

def Found.message : Found → String
  | .null => "null"
  | .bool b => s!"boolean `{b}`"
  | .number (.int n) => s!"integer `{n}`"
  | .number (.float x) => s!"floating point `{Json.numberText (.float x)}`"
  | .string s => s!"string {Text.shown s}"
  | .sequence => "sequence"
  | .map => "map"

/-- What is expected. -/
inductive Expected where
  | body
  | header
  | aggregations
  | aggregation
  | count
  | string
  deriving DecidableEq, Repr

def Expected.message : Expected → String
  | .body => "struct EsSearchRequest"
  | .header => "struct MSearchHeader"
  | .aggregations => "an object of named aggregations"
  | .aggregation => "an aggregation definition object"
  | .count => "usize"
  | .string => "a string"

/-- Why a body cannot be read. -/
inductive Fault where
  | text (fault : Json.Fault)
  | wrongType (found : Found) (expected : Expected)
  | negative (value : Int)
  | repeatedField (name : String)
  | repeatedName (name : String)
  | nestedTwice
  | noType
  | manyTypes (names : List String)
  | bodyNotObject (typeName : String)
  deriving DecidableEq, Repr

def Fault.message : Fault → String
  | .text fault => fault.message
  | .wrongType found expected => s!"invalid type: {found.message}, expected {expected.message}"
  | .negative value => s!"invalid value: integer `{value}`, expected {Expected.count.message}"
  | .repeatedField name => s!"duplicate field `{name}`"
  | .repeatedName name => s!"duplicate aggregation name [{name}]"
  | .nestedTwice => "found both [aggs] and [aggregations] in one aggregation"
  | .noType => "aggregation definition has no type"
  | .manyTypes names =>
      "expected exactly one aggregation type, found [" ++ ", ".intercalate names ++ "]"
  | .bodyNotObject typeName => s!"[{typeName}] aggregation body must be an object"

/-- Something whose text may be faulty. -/
def ofText {α : Type} : Except Json.Fault α → Except Fault α
  | .ok x => .ok x
  | .error fault => .error (.text fault)

/-- What a tree turns out to be at first sight: containers are not looked into. -/
def found : Raw → Except Fault Found
  | .null => .ok .null
  | .bool b => .ok (.bool b)
  | .number n => .number <$> ofText n
  | .string s => .string <$> ofText s
  | .array .. => .ok .sequence
  | .object .. => .ok .map
  | .broken fault => .error (.text fault.wanted)

/-- The fault of a tree that is not what is expected. -/
def refuse {α : Type} (expected : Expected) (raw : Raw) : Except Fault α := do
  throw (.wrongType (← found raw) expected)

/-- A container that is entered with `depth` others open around it. -/
def enter (depth : Nat) : Except Fault Unit :=
  if Json.maxDepth ≤ depth then .error (.text .tooDeep) else .ok ()

/-- The end of a list whose items are all read. -/
def finish (ending : Json.Ending) : Except Fault Unit := ofText (Raw.checkEnd ending)

end Rollup.Search
