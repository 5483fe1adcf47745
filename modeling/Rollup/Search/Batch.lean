import Rollup.Search.Answer
import Rollup.Text.Blank

/-! # Batches

A batch holds several searches, each a header on one line and a body on the next; blank lines do not
count. A batch is read as a whole before any search is made. Then each search succeeds or fails by
itself; but if one breaks down, so does the batch.
-/

namespace Rollup.Search

/-- Searches in order, each with its header. -/
abbrev Batch := List (Header × Body)

namespace Batch

/-- Read the lines of headers and bodies in turn. -/
def ofLines : List (List Char) → Except BatchFault Batch
  | [] => .ok []
  | [_] => .error .unpaired
  | headerLine :: bodyLine :: lines => do
      let header ← match Header.ofBytes (Utf8.encode headerLine) with
        | .ok header => pure header
        | .error fault => throw (.header fault)
      let body ← match Body.ofBytes (Utf8.encode bodyLine) with
        | .ok body => pure body
        | .error fault => throw (.body fault)
      return (header, body) :: (← ofLines lines)

/-- The batch that bytes spell. A line without a partner is found before any line is read. -/
def ofBytes (bytes : List UInt8) : Except BatchFault Batch :=
  match Utf8.decode bytes with
  | .error fault => .error (.notText fault)
  | .ok text =>
      let lines := Text.filledLines text
      if lines.length % 2 = 0 then ofLines lines else .error .unpaired

variable [Memory]

/-- Make one search: in the header's table, or else in the one that all searches are for. -/
def item (source : Source) (limits : Limits) (table : Option String) (header : Header)
    (body : Body) : Except Error Json :=
  match header.table <|> table with
  | some table => search source limits table body
  | none => .error (.invalidBatch .noTable)

/-- An item of the answer. An error has its own item, unless it is a breakdown. -/
def itemJson : Except Error Json → Except Error Json
  | .ok answer => .ok answer
  | .error error => if error.isBreakdown then .error error else .ok error.itemJson

/-- The answer that has these items. -/
def answerOf (items : List Json) : Json :=
  .object [("took", .ofNat 0), ("responses", .array items)]

/-- The answer to a batch: an item for each search. -/
def answer (source : Source) (limits : Limits) (table : Option String) (batch : Batch) :
    Except Error Json :=
  answerOf <$> batch.mapM fun (header, body) => itemJson (item source limits table header body)

end Batch

end Rollup.Search
