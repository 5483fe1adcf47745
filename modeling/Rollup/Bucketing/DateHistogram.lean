import Rollup.Bucketing.Grouping
import Rollup.Calendar.Interval

/-! # Buckets of time

The key of a bucket is the start of its interval. Without a least count of rows every interval
between the first and the last one has a group.
-/

namespace Rollup.DateHistogram

open Calendar (Instant Interval)

/-- The interval of a node, given in one of three parameters: a unit of the calendar, a fixed width,
or either of them. -/
def intervalOf (node : Node) : Except Error Interval := do
  let unit ← node.stringParam "calendar_interval"
  let width ← node.stringParam "fixed_interval"
  let either ← node.stringParam "interval"
  let read (name : String) (interval : Option Interval) (fault : ParamFault) :
      Except Error Interval :=
    match interval with
    | some interval => .ok interval
    | none => .error (node.badParam name fault)
  match unit, width, either with
  | some text, none, none =>
      read "calendar_interval" (Interval.ofUnitText? text) (.unknownUnit text)
  | none, some text, none =>
      read "fixed_interval" (Interval.ofWidthText? text) (.unreadableInterval text)
  | none, none, some text =>
      read "interval" (Interval.ofUnitText? text <|> Interval.ofWidthText? text)
        (.unreadableInterval text)
  | none, none, none => throw (node.badParam "calendar_interval" .noInterval)
  | _, _, _ => throw (node.badParam "calendar_interval" .manyIntervals)

/-- The span of time that a node asks to fill. -/
def boundsOf (node : Node) : Except Error (Option (Instant × Instant)) :=
  node.extendedBounds Instant.ofJson? (fun low high => high < low)

def validate (node : Node) : Except Error Unit := do
  let _ ← node.requireField
  node.checkSize
  let _ ← intervalOf node
  let _ ← node.minCount
  let _ ← boundsOf node

/-- The starts of intervals from one on up to the last, unless they are more than the limit. -/
def starts (interval : Interval) (last : Instant) : (limit : Nat) → Option Instant →
    Option (List Instant)
  | _, none => some []
  | 0, some start => if start ≤ last then none else some []
  | limit + 1, some start =>
      if start ≤ last then (start :: ·) <$> starts interval last limit (interval.next start)
      else some []

/-- Start of the interval that holds a value of the field; a null has none. -/
def startOf (node : Node) (interval : Interval) (field : String) (value : Json) :
    Except Error (Option Instant) :=
  if value.isNull then .ok none
  else match (Instant.ofJson? value).bind interval.floor with
    | some start => .ok (some start)
    | none => .error (node.invalidValue field value)

/-- One group for each interval that holds a value, one for the nulls, and the groups that fill the
gaps. -/
def group (node : Node) (rows : RowSet) (limits : Limits) :
    Except Error (Grouping (Fin rows.rows.size)) := do
  let field ← node.requireField
  let interval ← intervalOf node
  let minCount ← node.minCount
  let values ← rows.column node.name field
  let started ← values.mapM fun (id, value) => do
    return (← startOf node interval field value, id)
  let keyOf : Option Instant → Key := fun start => start.elim .missing .date
  let groups := Groups.ofPairs (started.map fun (start, id) => (keyOf start, id))
  if minCount ≠ 0 then return .atLeast minCount groups
  let span := spanOf (started.filterMap (·.1))
  let span ← match ← boundsOf node with
    | none => pure span
    | some (low, high) => do
        let some low := interval.floor low
          | throw (node.badParam "extended_bounds" (.boundOutOfRange "min"))
        let some high := interval.floor high
          | throw (node.badParam "extended_bounds" (.boundOutOfRange "max"))
        pure (some (widen span low high))
  match span with
  | none => return .atLeast 0 groups
  | some (first, last) => do
      let some filled := starts interval last limits.buckets (some first)
        | throw (.tooManyBuckets limits.buckets)
      return .atLeast 0 (groups.fill (filled.map .date))

end Rollup.DateHistogram
