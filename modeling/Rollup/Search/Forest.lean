import Rollup.Aggregation.Node
import Rollup.Search.Body
import Rollup.Search.Error

/-! # From a body to a request

A definition becomes a node: the field is taken out of the body, what is left are the parameters. The
nodes keep the order of the definitions.
-/

namespace Rollup.Search

/-- The field that a definition's body names, if any. -/
def fieldOf (name : String) (body : Entries Json) : Except Error (Option String) :=
  match body.lookup "field" with
  | none => .ok none
  | some (.string field) => .ok (some field)
  | some other => .error (.invalidBody (.fieldNotString name other.text))

/-- The node of a definition without what is nested in it. -/
def nodeOf (name typeName : String) (body : Entries Json) (children : List Node) :
    Except Error Node := do
  let field ← fieldOf name body
  let params := Entries.erase body "field"
  if Entries.has params "script" then throw (.invalidBody (.script name))
  match Node.create name typeName field params children with
  | .ok node => return node
  | .error error => throw (.engine error)

mutual

/-- The node of a definition. Nested definitions come first. -/
def Definition.node (name : String) : Definition → Except Error Node
  | ⟨typeName, body, nested, _⟩ => do
      nodeOf name typeName body (← nestedNodes nested)

def nestedNodes : Option (List (String × Definition)) → Except Error (List Node)
  | none => .ok []
  | some definitions => nodesOf definitions

def nodesOf : List (String × Definition) → Except Error (List Node)
  | [] => .ok []
  | (name, definition) :: definitions => do
      let node ← definition.node name
      return node :: (← nodesOf definitions)

end

/-- A query that every row passes. -/
def matchesAll : Json → Bool
  | .object [(kind, _)] => kind = "match_all"
  | _ => false

namespace Body

/-- The filter that a body asks for, unless every row passes it. -/
def filter (body : Body) : Option Json := body.query.filter fun query => !matchesAll query

/-- The nodes that a body asks for. -/
def nodes (body : Body) : Except Error (List Node) := nestedNodes body.aggregations

end Body

end Rollup.Search
