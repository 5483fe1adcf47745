import Rollup.Engine

/-! # Filters

A filter is a query on one row. Evaluation goes from left to right and stops as soon as the outcome
is certain, so a fault in a part that is not reached does not show.
-/

namespace Rollup.Filter

open Calendar (Instant)

/-- A number, or a string that reads as a time. -/
def quantity? (value : Json) : Option Float :=
  match value with
  | .number n => some n.toFloat
  | .string _ => (Instant.ofJson? value).map Binary64.ofInt
  | _ => none

/-- Whether a value of a row equals an expected one. A number equals a string that reads as it. -/
def equals (actual expected : Json) : Bool :=
  match actual, expected with
  | .number m, .number n => m.toFloat == n.toFloat
  | .string s, .number n => (Binary64.ofString? s).any (· == n.toFloat)
  | .number n, .string s => (Binary64.ofString? s).any (· == n.toFloat)
  | a, b => a.same b

/-- The only member of a query's body. -/
def onlyField (kind : String) (body : Json) : Except Error (String × Json) :=
  match body with
  | .object [member] => .ok member
  | _ => .error (.invalidQuery (.notOneField kind))

/-- The field equals a value, which may be given as the member `value` of an object. -/
def term (row : Row) (body : Json) : Except Error Bool := do
  let (field, expected) ← onlyField "term" body
  let expected := match expected with
    | .object members => (members.lookup "value").getD .null
    | value => value
  return (row.lookup field).any fun actual => equals actual expected

/-- The field equals one of several values. -/
def terms (row : Row) (body : Json) : Except Error Bool := do
  let (field, expected) ← onlyField "terms" body
  let some expected := expected.array? | throw (.invalidQuery .termsNotList)
  return (row.lookup field).any fun actual => expected.any (equals actual)

/-- Whether a quantity keeps a bound. A bound that is absent or cannot be read is kept by all. -/
def keeps (bounds : Json) (name : String) (test : Float → Bool) : Bool :=
  match (bounds.member? name).bind quantity? with
  | none => true
  | some bound => test bound

/-- The field lies within bounds. -/
def range (row : Row) (body : Json) : Except Error Bool := do
  let (field, bounds) ← onlyField "range" body
  return match (row.lookup field).bind quantity? with
    | none => false
    | some x =>
        keeps bounds "gte" (fun b => b ≤ x) && keeps bounds "gt" (fun b => b < x)
          && keeps bounds "lte" (fun b => x ≤ b) && keeps bounds "lt" (fun b => x < b)

/-- The field is there and not null. -/
def fieldExists (row : Row) (body : Json) : Except Error Bool := do
  let some field := (body.member? "field").bind Json.string?
    | throw (.invalidQuery .existsWithoutField)
  return (row.lookup field).any fun value => !value.isNull

mutual

/-- Whether a row passes a filter. -/
def accepts (row : Row) : Json → Except Error Bool
  | .object [(kind, body)] =>
      match kind with
      | "match_all" => .ok true
      | "term" => term row body
      | "terms" => terms row body
      | "range" => range row body
      | "exists" => fieldExists row body
      | "bool" => acceptsAll row body
      | other => .error (.invalidQuery (.unsupported other))
  | .object _ => .error (.invalidQuery .notOneClause)
  | _ => .error (.invalidQuery .notObject)

/-- Whether a row passes the clauses of a `bool` query: all of `must` and `filter`, none of
`must_not`, and one of `should` if there are such clauses and neither `must` nor `filter` is given. -/
def acceptsAll (row : Row) : Json → Except Error Bool
  | .object members => do
      if !(← allNamed row "must" members) then return false
      if !(← allNamed row "filter" members) then return false
      if ← anyNamed row "must_not" members then return false
      if (members.lookup "must").isSome || (members.lookup "filter").isSome then return true
      let should : Bool := match members.lookup "should" with
        | none => false
        | some (.array []) => false
        | some _ => true
      if should then anyNamed row "should" members else return true
  | _ => .ok true

/-- Whether a row passes all clauses of a name. -/
def allNamed (row : Row) (name : String) : List (String × Json) → Except Error Bool
  | [] => .ok true
  | (other, clauses) :: members =>
      if other = name then match clauses with
        | .array items => allOf row items
        | clause => accepts row clause
      else allNamed row name members

/-- Whether a row passes a clause of a name. -/
def anyNamed (row : Row) (name : String) : List (String × Json) → Except Error Bool
  | [] => .ok false
  | (other, clauses) :: members =>
      if other = name then match clauses with
        | .array items => anyOf row items
        | clause => accepts row clause
      else anyNamed row name members

def allOf (row : Row) : List Json → Except Error Bool
  | [] => .ok true
  | query :: queries => do if ← accepts row query then allOf row queries else return false

def anyOf (row : Row) : List Json → Except Error Bool
  | [] => .ok false
  | query :: queries => do if ← accepts row query then return true else anyOf row queries

end

/-- Whether a row lies in the bucket of a key. A column that is not there counts as null. -/
def acceptsKey (row : Row) : KeyFilter → Bool
  | .equals column key => Key.ofJson? ((row.lookup column).getD .null) == some key
  | .range column start stop =>
      ((row.lookup column).bind quantity?).any fun x => start ≤ x && x < stop

end Rollup.Filter
