import Rollup.Aggregation.Method
import Rollup.Binary64.Reader
import Rollup.Json.Basic

/-! # Aggregation nodes

A request is a forest of nodes. A node names its method and, next to it, the kind of aggregation it
is taken for; a request is valid only if the two agree.
-/

namespace Rollup

/-- One aggregation of a request. -/
structure Node where
  name : String
  typeName : String
  kind : Kind
  field : Option String
  params : List (String × Json)
  children : List Node
  deriving Repr, Inhabited

namespace Node

/-- A node of the kind that its method has. -/
def create (name typeName : String) (field : Option String) (params : Entries Json)
    (children : List Node) : Except Error Node := do
  let method ← Method.find typeName field
  return { name, typeName, kind := method.kind, field, params, children }

/-- The method that a node names. -/
def method (node : Node) : Except Error Method := Method.find node.typeName node.field

def isPipeline (node : Node) : Bool := node.kind = .pipeline

/-- The first child of a name. -/
def child? (node : Node) (name : String) : Option Node := node.children.find? (·.name = name)

/-- Append what is not there yet. -/
def addColumn (columns : List String) (column : Option String) : List String :=
  match column with
  | none => columns
  | some c => if c ∈ columns then columns else columns ++ [c]

mutual

/-- Add the columns that a node reads to those already known. -/
def addColumns (columns : List String) : Node → List String
  | ⟨_, _, kind, field, _, children⟩ =>
      if kind = .pipeline then columns else addColumnsOf (addColumn columns field) children

def addColumnsOf (columns : List String) : List Node → List String
  | [] => columns
  | node :: nodes => addColumnsOf (addColumns columns node) nodes

end

/-- The columns that a node and its descendants read, in order of first mention. Pipelines read
none. -/
def columns (node : Node) : List String := addColumns [] node

/-- The field of a node that cannot do without one. -/
def requireField (node : Node) : Except Error String :=
  match node.field with
  | some field => .ok field
  | none => .error (.invalidAggregation node.name (.fieldRequired node.typeName))

/-- A fault of a parameter, as an error of the node. -/
def badParam (node : Node) (name : String) (fault : ParamFault) : Error :=
  .invalidAggregation node.name (.parameter name fault)

/-! ## Parameters

A parameter that is null counts as absent. -/

def param? (node : Node) (name : String) : Option Json :=
  match node.params.lookup name with
  | some .null => none
  | value => value

def natParam (node : Node) (name : String) : Except Error (Option Nat) :=
  match node.param? name with
  | none => .ok none
  | some value => match value.nat? with
    | some n => .ok (some n)
    | none => .error (node.badParam name .notCount)

/-- A number, or a string that reads as one. -/
def floatParam (node : Node) (name : String) : Except Error (Option Float) :=
  match node.param? name with
  | none => .ok none
  | some (.number n) => .ok (some n.toFloat)
  | some (.string s) => match Binary64.ofString? s with
    | some x => .ok (some x)
    | none => .error (node.badParam name .notNumber)
  | some _ => .error (node.badParam name .notNumber)

def stringParam (node : Node) (name : String) : Except Error (Option String) :=
  match node.param? name with
  | none => .ok none
  | some (.string s) => .ok (some s)
  | some _ => .error (node.badParam name .notString)

/-- A parameter that must be positive where it is given. -/
def positiveParam (node : Node) (name : String) : Except Error (Option Nat) := do
  match ← node.natParam name with
  | some 0 => throw (node.badParam name .notPositive)
  | n => return n

/-- How many buckets to keep. -/
def checkSize (node : Node) : Except Error Unit := do
  let _ ← node.positiveParam "size"

end Node

end Rollup
