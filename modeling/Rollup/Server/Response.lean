import Rollup.Json.Printer
import Rollup.Search.Error

/-! # Responses -/

namespace Rollup.Server

/-- What a response brings. -/
inductive Content where
  | json (value : Json)
  | text (words : String)

def Content.written : Content → String
  | .json value => value.text
  | .text words => words

structure Response where
  status : Nat
  content : Content
  headers : Entries String := []

namespace Response

def ok (value : Json) : Response := { status := 200, content := .json value }

/-- A response that is no more than its status. -/
def bare (status : Nat) : Response := { status, content := .text "" }

def ofError (error : Search.Error) : Response :=
  { status := error.status, content := .json error.json }

/-- The response that tells a result. There is none to a breakdown. -/
def ofResult? : Except Search.Error Json → Option Response
  | .ok value => some (ok value)
  | .error error => if error.isBreakdown then none else some (ofError error)

/-- The refusal of a body that is too long. -/
def tooLong : Response :=
  { status := 413, content := .text "Failed to buffer the request body: length limit exceeded" }

/-- The refusal of a path whose table is no text. -/
def badTable : Response :=
  { status := 400, content := .text "Invalid URL: Invalid UTF-8 in `index`" }

/-- What the service says of itself. -/
def info : Response :=
  ok (.object
    [("name", .string "strata"),
     ("cluster_name", .string "strata"),
     ("cluster_uuid", .string "strata-es-compat"),
     ("version", .object
       [("number", .string "7.17.0"),
        ("build_flavor", .string "default"),
        ("build_type", .string "strata"),
        ("build_snapshot", .bool false),
        ("lucene_version", .string "8.11.1"),
        ("minimum_wire_compatibility_version", .string "6.8.0"),
        ("minimum_index_compatibility_version", .string "6.0.0-beta1")]),
     ("tagline", .string "You Know, for Aggregations (Strata)")])

/-- What the service says of its health, which is always good. -/
def health : Response :=
  ok (.object
    [("cluster_name", .string "strata"),
     ("status", .string "green"),
     ("timed_out", .bool false),
     ("number_of_nodes", .ofNat 1),
     ("number_of_data_nodes", .ofNat 1),
     ("active_primary_shards", .ofNat 0),
     ("active_shards", .ofNat 0),
     ("relocating_shards", .ofNat 0),
     ("initializing_shards", .ofNat 0),
     ("unassigned_shards", .ofNat 0)])

end Response

end Rollup.Server
