import Rollup.Search.Fault

/-! # Aggregation definitions

A definition names one type with its body, and next to that may hold definitions of its own and an
annotation. Definitions keep the order in which the request names them.
-/

namespace Rollup.Search

open Json (Raw Ending)

/-- One aggregation as a request defines it. -/
structure Definition where
  typeName : String
  body : List (String × Json)
  nested : Option (List (String × Definition))
  /-- Whatever the request wants to remember about it. -/
  annotation : Option Json
  deriving Repr, Inhabited

/-- Members of a definition that have been read so far. -/
structure Definition.Parts where
  /-- Every member that is taken for a type. -/
  types : List (String × Json) := []
  nested : Option (List (String × Definition)) := none
  annotation : Option Json := none

/-- A definition has exactly one type, and the type's body is an object. -/
def Definition.Parts.definition (parts : Parts) : Except Fault Definition :=
  match parts.types with
  | [] => .error .noType
  | [(typeName, .object body)] =>
      .ok { typeName, body, nested := parts.nested, annotation := parts.annotation }
  | [(typeName, _)] => .error (.bodyNotObject typeName)
  | types => .error (.manyTypes (types.map (·.1)))

mutual

/-- Read named definitions within `depth` containers. -/
def readDefinitions (depth : Nat) : Raw → Except Fault (List (String × Definition))
  | .object members ending => do
      enter depth
      readNamed (depth + 1) [] members ending
  | raw => refuse .aggregations raw

/-- Read the named definitions that follow others. A name that repeats is refused once its
definition is read. -/
def readNamed (depth : Nat) (before : List (String × Definition)) :
    List (Except Json.Fault String × Raw) → Ending → Except Fault (List (String × Definition))
  | [], ending => do
      finish ending
      return before
  | (name, raw) :: members, ending => do
      let name ← ofText name
      let definition ← readDefinition depth raw
      if name ∈ before.map (·.1) then throw (.repeatedName name)
      readNamed depth (before ++ [(name, definition)]) members ending

/-- Read one definition within `depth` containers. -/
def readDefinition (depth : Nat) : Raw → Except Fault Definition
  | .object members ending => do
      enter depth
      readParts (depth + 1) {} members ending
  | raw => refuse .aggregation raw

/-- Read the members of a definition that follow others. -/
def readParts (depth : Nat) (parts : Definition.Parts) :
    List (Except Json.Fault String × Raw) → Ending → Except Fault Definition
  | [], ending => do
      finish ending
      parts.definition
  | (name, raw) :: members, ending => do
      let name ← ofText name
      if name = "aggs" ∨ name = "aggregations" then
        if parts.nested.isSome then throw .nestedTwice
        let nested ← readDefinitions depth raw
        readParts depth { parts with nested := some nested } members ending
      else
        let value ← ofText (Raw.value depth raw)
        if name = "meta" then readParts depth { parts with annotation := some value } members ending
        else readParts depth { parts with types := parts.types ++ [(name, value)] } members ending

end

end Rollup.Search
