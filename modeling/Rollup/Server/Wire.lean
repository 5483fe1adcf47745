import Rollup.Server.Service

/-! # Requests and responses as text

A request is a line with method and target, lines of headers and an empty line, and then a body of the
length that the headers tell. A response is written alike.
-/

namespace Rollup.Server

/-- A text without the line break at its end. -/
def withoutBreak (line : String) : String :=
  String.ofList (line.toList.takeWhile fun c => c ≠ '\r' && c ≠ '\n')

/-- A header line: its name, a colon and its value. -/
def headerOf? (line : String) : Option (String × String) :=
  match line.toList.dropWhile (· ≠ ':') with
  | [] => none
  | _ :: value =>
      some (String.ofList (line.toList.takeWhile (· ≠ ':')), String.ofList (Text.trim value))

/-- The request that its lines tell, without its body. -/
def Incoming.ofLines? : List String → Option Incoming
  | [] => none
  | first :: headers => match first.splitOn " " with
      | method :: target :: _ => some { method, target, headers := headers.filterMap headerOf? }
      | _ => none

/-- How many bytes follow the head of a request. -/
def Incoming.length (incoming : Incoming) : Nat :=
  ((incoming.header? "content-length").bind String.toNat?).getD 0

/-- The name of a status. -/
def reason (status : Nat) : String :=
  match status with
  | 200 => "OK"
  | 400 => "Bad Request"
  | 404 => "Not Found"
  | 405 => "Method Not Allowed"
  | 413 => "Payload Too Large"
  | 504 => "Gateway Timeout"
  | _ => "Internal Server Error"

def Content.type : Content → String
  | .json _ => "application/json"
  | .text _ => "text/plain; charset=utf-8"

/-- A response as it is sent. -/
def Response.text (response : Response) : String :=
  let body := response.content.written
  let headers := response.headers ++
    [("content-type", response.content.type), ("content-length", toString body.utf8ByteSize)]
  s!"HTTP/1.1 {response.status} {reason response.status}\r\n"
    ++ String.join (headers.map fun (name, value) => s!"{name}: {value}\r\n")
    ++ "\r\n" ++ body

/-- The tables that a request may ask for. -/
def Incoming.tables (incoming : Incoming) : List String :=
  match Route.ofTarget? incoming.target with
  | some (.search table) => table.toList
  | some (.batch table) => match Search.Batch.ofBytes incoming.body with
      | .ok batch => table.toList ++ batch.filterMap (·.1.table)
      | .error _ => []
  | _ => []

end Rollup.Server
