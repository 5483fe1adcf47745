import Rollup.Text.Utf8

/-! # Routes

A path leads to at most one route. Only the part that names a table may be written with percent
signs; it may be empty.
-/

namespace Rollup.Server

/-- What can be asked for. A table's name that is no text is missing. -/
inductive Route where
  | info
  | health
  | search (table : Option String)
  | batch (table : Option String)
  deriving DecidableEq, Repr

namespace Route

def hexValue? (c : Char) : Option Nat :=
  if '0' ≤ c ∧ c ≤ '9' then some (c.toNat - '0'.toNat)
  else if 'a' ≤ c ∧ c ≤ 'f' then some (c.toNat - 'a'.toNat + 10)
  else if 'A' ≤ c ∧ c ≤ 'F' then some (c.toNat - 'A'.toNat + 10)
  else none

/-- The bytes of a segment. A percent sign and two hexadecimal digits stand for one byte; a percent
sign before anything else stands for itself. -/
def segmentBytes : List Char → List UInt8
  | '%' :: a :: b :: rest =>
      match hexValue? a, hexValue? b with
      | some x, some y => (16 * x + y).toUInt8 :: segmentBytes rest
      | _, _ => Utf8.encodeChar '%' ++ segmentBytes (a :: b :: rest)
  | c :: rest => Utf8.encodeChar c ++ segmentBytes rest
  | [] => []

/-- The table that a segment names. -/
def tableOf? (segment : String) : Option String :=
  match Utf8.decode (segmentBytes segment.toList) with
  | .ok name => some (String.ofList name)
  | .error _ => none

/-- A target without the scheme and the host in front of its path. A path that is missing behind a
host is the root. -/
def withoutHost (target : List Char) : List Char :=
  match target.dropWhile fun c => c ≠ ':' && c ≠ '/' with
  | ':' :: '/' :: '/' :: rest =>
      match rest.dropWhile fun c => c ≠ '/' && c ≠ '?' && c ≠ '#' with
      | '/' :: path => '/' :: path
      | path => '/' :: path
  | _ => target

/-- The path of a target, without what is asked of it or points into it. -/
def barePath (target : String) : String :=
  String.ofList ((withoutHost target.toList).takeWhile fun c => c ≠ '?' && c ≠ '#')

/-- Where a target leads. -/
def ofTarget? (target : String) : Option Route :=
  match (barePath target).splitOn "/" with
  | ["", ""] => some .info
  | ["", "_cluster", "health"] => some .health
  | ["", "_msearch"] => some (.batch none)
  | ["", table, "_search"] => some (.search (tableOf? table))
  | ["", table, "_msearch"] => some (.batch (tableOf? table))
  | _ => none

/-- Whether a route can be asked for by a method. -/
def allows : Route → (method : String) → Bool
  | .info, method => method = "GET" || method = "HEAD"
  | .health, method => method = "GET" || method = "HEAD"
  | .search _, method => method = "GET" || method = "HEAD" || method = "POST"
  | .batch _, method => method = "POST"

end Route

end Rollup.Server
