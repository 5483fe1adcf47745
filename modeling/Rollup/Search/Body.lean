import Rollup.Json.Reader
import Rollup.Search.Definition
import Rollup.Search.Record

/-! # Request bodies

A search is asked for by a body, and in a batch also by a header that says where to search. Hits are
never returned, so what a body says about them is read and kept but has no effect.
-/

namespace Rollup.Search

open Json (Raw)

/-- What a search asks for. -/
structure Body where
  query : Option Json := none
  offset : Option Nat := none
  size : Option Nat := none
  aggregations : Option (List (String × Definition)) := none
  trackTotalHits : Option Json := none
  deriving Repr, Inhabited

/-- Where a search of a batch is to be made. -/
structure Header where
  table : Option String := none
  preference : Option String := none
  routing : Option String := none
  deriving DecidableEq, Repr, Inhabited

/-- A count of 64 bits. -/
def readCount (_ : Nat) : Raw → Except Fault Nat
  | .number n => do
      match ← ofText n with
      | .int (.ofNat n) => return n
      | .int n => throw (.negative n)
      | .float x => throw (.wrongType (.number (.float x)) .count)
  | raw => refuse .count raw

def readString (_ : Nat) : Raw → Except Fault String
  | .string s => ofText s
  | raw => refuse .string raw

def readValue (depth : Nat) (raw : Raw) : Except Fault Json := ofText (Raw.value depth raw)

/-- Read a whole text. -/
def readDocument {α : Type} (read : Raw → Except Fault α) (bytes : List UInt8) : Except Fault α := do
  let document := Json.Document.read bytes
  let value ← read document.value
  ofText document.checkEnd
  return value

namespace Body

def fields : List (Field Body) :=
  [.optional "query" [] readValue fun body query => { body with query },
   .optional "from" [] readCount fun body offset => { body with offset },
   .optional "size" [] readCount fun body size => { body with size },
   .optional "aggs" ["aggregations"] readDefinitions fun body aggregations =>
     { body with aggregations },
   .optional "track_total_hits" [] readValue fun body trackTotalHits => { body with trackTotalHits }]

/-- The body that a text spells. -/
def ofBytes : List UInt8 → Except Fault Body := readDocument (Field.readRecord fields .body {})

/-- A text of blanks alone asks for nothing but the count of rows. -/
def ofBytesOrBlank (bytes : List UInt8) : Except Fault Body :=
  if bytes.all fun b => Json.isBlankByte b || b = 0x0C then .ok {} else ofBytes bytes

end Body

namespace Header

def fields : List (Field Header) :=
  [.optional "index" [] readString fun header table => { header with table },
   .optional "preference" [] readString fun header preference => { header with preference },
   .optional "routing" [] readString fun header routing => { header with routing }]

/-- The header that a text spells. -/
def ofBytes : List UInt8 → Except Fault Header := readDocument (Field.readRecord fields .header {})

end Header

end Rollup.Search
