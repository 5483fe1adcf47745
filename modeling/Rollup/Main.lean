import Rollup.Catalog.Ndjson
import Rollup.CommandLine
import Rollup.Server.Wire
import Rollup.Settings.Printer
import Rollup.Settings.Reader

/-! Command line: answers requests that come in on standard input, about the tables of a directory. -/

namespace Rollup.Main

open Server

def usage : String :=
  "Search-dialect aggregations over columnar tables\n\n" ++
  "Usage: rollup [OPTIONS]\n\n" ++
  "Options:\n" ++
  "  -c, --config <CONFIG>  Configuration file path [default: strata.toml]\n" ++
  "      --host <HOST>      Host to bind to (overrides server.bind_addr)\n" ++
  "  -p, --port <PORT>      Port to listen on (overrides server.bind_addr)\n" ++
  "  -h, --help             Print help\n" ++
  "  -V, --version          Print version\n"

def complaint : CommandLine.Stop → String
  | .unknownArgument => "unexpected argument"
  | .missingValue => "an option needs a value"
  | .unneededValue => "an option takes no value"
  | .badValue => "a port is a number from 0 to 65535"
  | .repeatedOption => "an option cannot be given twice"
  | .help => usage
  | .version => "rollup 0.1.0"

/-- The text of a file, if it can be read. -/
def readFile? (path : String) : IO (Option String) := do
  try return some (← IO.FS.readFile path) catch _ => return none

/-- The settings of a file. If there is none the defaults are written to it. -/
def loadSettings (path home : String) : IO (Except Settings.ReadFault Settings) := do
  match ← readFile? path with
  | some text => return Settings.ofText home text.toList
  | none =>
      let settings : Settings := {}
      try IO.FS.writeFile path settings.text catch _ => pure ()
      return .ok settings

/-- Load a table from its file. -/
def loadTable (directory table : String) : IO (Option (Except Error (List Row))) := do
  if table.toList.contains '/' then return none
  match ← readFile? (directory ++ "/" ++ table ++ ".ndjson") with
  | none => return none
  | some text => return some (Ndjson.rowsOfText text)

/-- The source of rows for a request: the tables that it may ask for, as they are now. -/
def loadSource (directory : String) (incoming : Incoming) : IO Source := do
  let mut catalog : Catalog := []
  let mut faults : Entries Error := []
  for table in incoming.tables do
    match ← loadTable directory table with
    | none => pure ()
    | some (.ok rows) => catalog := Entries.set catalog table rows
    | some (.error fault) => faults := Entries.set faults table fault
  let source := catalog.source
  let known := faults
  return { source with
    count := fun table filter => match known.lookup table with
      | some fault => .error fault
      | none => source.count table filter }

/-- Lines up to an empty one. -/
partial def readHead (input : IO.FS.Stream) (lines : List String) : IO (List String) := do
  let line ← input.getLine
  let text := withoutBreak line
  if line.isEmpty || (text.isEmpty && !lines.isEmpty) then return lines.reverse
  else if text.isEmpty then readHead input lines
  else readHead input (text :: lines)

/-- As many bytes as asked for, or as there are. -/
partial def readBody (input : IO.FS.Stream) (length : Nat) (bytes : ByteArray) : IO ByteArray := do
  if length ≤ bytes.size then return bytes
  let more ← input.read (length - bytes.size).toUSize
  if more.isEmpty then return bytes else readBody input length (bytes ++ more)

/-- Answer one request after another, up to one that the work breaks down for. -/
partial def serve (settings : Settings) (input output : IO.FS.Stream) : IO Unit := do
  match Incoming.ofLines? (← readHead input []) with
  | none => return
  | some head =>
      let body ← readBody input head.length .empty
      let incoming := { head with body := body.toList }
      let source ← loadSource settings.tables incoming
      let service : Service :=
        { source, limits := settings.limits, bodyLimit := settings.server.bodyLimit }
      match service.respondAcross settings.server.crossOrigin incoming with
      | none => return
      | some response =>
          output.putStr response.text
          output.flush
          serve settings input output

/-- Run with the arguments behind the name of the program. -/
def run (arguments : List String) : IO UInt32 := do
  match CommandLine.ofArguments arguments with
  | .error stop =>
      if stop = .help ∨ stop = .version then
        IO.println (complaint stop)
        return 0
      else
        IO.eprintln s!"error: {complaint stop}"
        return 2
  | .ok line =>
      let home := (← IO.getEnv "HOME").getD ""
      match ← loadSettings line.settings home with
      | .error .unreadable =>
          IO.eprintln s!"error: Failed to load config from {line.settings}"
          return 1
      | .error (.invalid fault) =>
          IO.eprintln s!"error: {fault.message}"
          return 1
      | .ok settings =>
          let address := Settings.listenAddress settings.server.address line.host line.port
          IO.eprintln s!"Serving standard input in place of {address}"
          serve settings (← IO.getStdin) (← IO.getStdout)
          return 0

end Rollup.Main

def main (arguments : List String) : IO UInt32 := Rollup.Main.run arguments
