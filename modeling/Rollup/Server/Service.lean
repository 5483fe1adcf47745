import Rollup.Search.Batch
import Rollup.Server.CrossOrigin
import Rollup.Server.Response
import Rollup.Server.Route

/-! # The service

A service answers requests about the tables of one source. A body is taken in only where the route
reads one, and only up to a length. If the work breaks down there is no response.
-/

namespace Rollup.Server

/-- A request as it comes in. -/
structure Incoming where
  method : String
  target : String
  headers : Entries String := []
  body : List UInt8 := []

/-- A header of a request; its name may be written in letters of either case. -/
def Incoming.header? (incoming : Incoming) (name : String) : Option String :=
  (incoming.headers.find? fun header => header.1.toLower = name).map (·.2)

structure Service where
  source : Source
  limits : Limits
  /-- How many bytes a body may have. -/
  bodyLimit : Nat := 2097152

namespace Service

variable [Memory]

/-- The answer to a search of a table. The body is read before the table is looked for. -/
def search (service : Service) (table : String) (body : List UInt8) : Except Search.Error Json :=
  match Search.Body.ofBytesOrBlank body with
  | .ok body => Search.search service.source service.limits table body
  | .error fault => .error (.invalidBody (.unreadable fault))

/-- The answer to a batch of searches. -/
def batch (service : Service) (table : Option String) (body : List UInt8) :
    Except Search.Error Json :=
  match Search.Batch.ofBytes body with
  | .ok batch => Search.Batch.answer service.source service.limits table batch
  | .error fault => .error (.invalidBatch fault)

/-- The response of a route. -/
def visit (service : Service) (body : List UInt8) : Route → Option Response
  | .info => some .info
  | .health => some .health
  | .search none => some .badTable
  | .search (some table) =>
      if service.bodyLimit < body.length then some .tooLong
      else Response.ofResult? (service.search table body)
  | .batch table =>
      if service.bodyLimit < body.length then some .tooLong
      else Response.ofResult? (service.batch table body)

/-- The response to a request, before what it brings is left out. -/
def full (service : Service) (incoming : Incoming) : Option Response :=
  match Route.ofTarget? incoming.target with
  | none => some (.bare 404)
  | some route =>
      if route.allows incoming.method then service.visit incoming.body route else some (.bare 405)

/-- The response to a request. One who asks for the head alone gets nothing more. -/
def respond (service : Service) (incoming : Incoming) : Option Response := do
  let response ← service.full incoming
  return if incoming.method = "HEAD" then { response with content := .text "" } else response

/-- The response to a request that may come from another origin. `OPTIONS` asks what is allowed,
whatever the path. -/
def respondAcross (service : Service) (rule : CrossOrigin) (incoming : Incoming) :
    Option Response := do
  let inquiry := incoming.method == "OPTIONS"
  let response ← if inquiry then some (.bare 200) else service.respond incoming
  return { response with
    headers := response.headers ++ rule.headers inquiry (incoming.header? "origin") }

end Service

end Rollup.Server
