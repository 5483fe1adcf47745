import Rollup.Entries

/-! # Requests from other origins

A page of another origin may read an answer only if the answer says so in its headers.
-/

namespace Rollup.Server

/-- Which origins may read answers. -/
structure CrossOrigin where
  enabled : Bool := true
  origins : List String := ["http://localhost:5601", "http://127.0.0.1:5601"]
  deriving DecidableEq, Repr, Inhabited

namespace CrossOrigin

/-- Whether a text can stand in a header. -/
def isHeaderText (text : String) : Bool :=
  text.toList.all fun c => (0x20 ≤ c.toNat && c.toNat < 0x7F) || c = '\t'

/-- The origin that an answer allows. -/
def allowed (rule : CrossOrigin) (origin : Option String) : Option String :=
  if rule.origins.contains "*" then some "*"
  else origin.filter fun origin => isHeaderText origin && rule.origins.contains origin

/-- The headers of an answer to a request from an origin. The answer to an inquiry also tells what
may be requested. -/
def headers (rule : CrossOrigin) (inquiry : Bool) (origin : Option String) : Entries String :=
  if !rule.enabled then []
  else
    (if inquiry then
      [("access-control-allow-headers", "*"), ("access-control-allow-methods", "GET,POST,OPTIONS")]
     else [])
    ++ (match rule.allowed origin with
      | some origin => [("access-control-allow-origin", origin)]
      | none => [])

end CrossOrigin

end Rollup.Server
