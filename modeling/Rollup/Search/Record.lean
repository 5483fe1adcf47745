import Rollup.Search.Fault

/-! # Records

A record is an object with known fields, or a list that gives the fields in order. A field is given
at most once, under one of its names; fields that are left out keep what they had, and members of
other names are skipped.
-/

namespace Rollup.Search

open Json (Raw Ending)

/-- A field of a record: its name, other names that stand for it, and how its value is read into the
record within `depth` containers. -/
structure Field (α : Type) where
  name : String
  aliases : List String := []
  read : (depth : Nat) → α → Raw → Except Fault α

namespace Field

variable {α : Type}

/-- A field whose value may be null. -/
def optional {β : Type} (name : String) (aliases : List String)
    (read : Nat → Raw → Except Fault β) (put : α → Option β → α) : Field α where
  name := name
  aliases := aliases
  read depth record raw := match raw with
    | .null => .ok (put record none)
    | raw => do return put record (some (← read depth raw))

/-- The field that a name stands for. -/
def find? (fields : List (Field α)) (name : String) : Option (Field α) :=
  fields.find? fun field => field.name = name || field.aliases.contains name

/-- Read members into a record, the fields of `seen` being given already. -/
def readMembers (fields : List (Field α)) (depth : Nat) (seen : List String) (record : α) :
    List (Except Json.Fault String × Raw) → Ending → Except Fault α
  | [], ending => do
      finish ending
      return record
  | (name, value) :: members, ending => do
      match find? fields (← ofText name) with
      | none =>
          ofText (Raw.skip value)
          readMembers fields depth seen record members ending
      | some field =>
          if field.name ∈ seen then throw (.repeatedField field.name)
          let record ← field.read depth record value
          readMembers fields depth (field.name :: seen) record members ending

/-- The end of a list that has given every field. Whatever else follows, it is no part of the record. -/
def finishFull : List Raw → Ending → Except Fault Unit
  | [], .closed => .ok ()
  | [], .broken fault =>
      if fault.wanted = .endInList ∨ fault.wanted = .trailingComma then .error (.text fault.wanted)
      else .error (.text .trailingCharacters)
  | _ :: _, _ => .error (.text .trailingCharacters)

/-- Read items into the fields of a record. -/
def readItems (depth : Nat) (record : α) :
    List (Field α) → List Raw → Ending → Except Fault α
  | [], items, ending => do
      finishFull items ending
      return record
  | _ :: _, [], ending => do
      finish ending
      return record
  | field :: fields, item :: items, ending => do
      readItems depth (← field.read depth record item) fields items ending

/-- Read a record that starts out as `record`. -/
def readRecord (fields : List (Field α)) (expected : Expected) (record : α) : Raw → Except Fault α
  | .object members ending => readMembers fields 1 [] record members ending
  | .array items ending => readItems 1 record fields items ending
  | raw => refuse expected raw

end Field

end Rollup.Search
