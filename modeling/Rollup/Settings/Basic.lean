import Rollup.Limits
import Rollup.Server.CrossOrigin

/-! # Settings

Every setting has a default. Settings that can be written down may still make no sense; these are told
one at a time.
-/

namespace Rollup

/-- How the service is reached. -/
structure ServerSettings where
  /-- Host and port to listen on. -/
  address : String := "127.0.0.1:9200"
  crossOrigin : Server.CrossOrigin := {}
  /-- How many bytes a request body may have. -/
  bodyLimit : Nat := 10485760
  deriving DecidableEq, Repr, Inhabited

/-- How the service tells what it does. -/
structure LogSettings where
  format : String := "pretty"
  level : String := "info,strata=debug"
  /-- Whether counters can be asked for. -/
  metrics : Bool := true
  deriving DecidableEq, Repr, Inhabited

structure Settings where
  server : ServerSettings := {}
  /-- The directory of the tables. -/
  tables : String := "./data/tables"
  limits : Limits := {}
  log : LogSettings := {}
  deriving DecidableEq, Repr, Inhabited

namespace Settings

/-- What makes no sense. -/
inductive Fault where
  | noBuilds
  | noBuckets
  | noTerms
  | unknownFormat (format : String)
  deriving DecidableEq, Repr

def Fault.message : Fault → String
  | .noBuilds => "aggregations.max_concurrent_builds must be at least 1"
  | .noBuckets => "aggregations.max_buckets must be at least 1"
  | .noTerms => "aggregations.default_terms_size must be at least 1"
  | .unknownFormat format =>
      s!"observability.log_format must be \"pretty\" or \"json\", got \"{format}\""

/-- The first setting that makes no sense. -/
def fault? (settings : Settings) : Option Fault :=
  if settings.limits.concurrentBuilds = 0 then some .noBuilds
  else if settings.limits.buckets = 0 then some .noBuckets
  else if settings.limits.termsSize = 0 then some .noTerms
  else if settings.log.format ≠ "pretty" ∧ settings.log.format ≠ "json" then
    some (.unknownFormat settings.log.format)
  else none

/-- A path in which a tilde in front stands for the home directory. -/
def underHome (home path : String) : String :=
  match path.toList with
  | ['~'] => home
  | '~' :: '/' :: '/' :: rest => String.ofList ('/' :: rest)
  | '~' :: '/' :: rest =>
      if home.endsWith "/" then home ++ String.ofList rest
      else home ++ "/" ++ String.ofList rest
  | _ => path

/-- Host and port of an address. The port follows the last colon; without one it is 9200. -/
def splitAddress (address : String) : String × String :=
  let reversed := address.toList.reverse
  if address.toList.contains ':' then
    (String.ofList ((reversed.dropWhile (· ≠ ':')).drop 1).reverse,
     String.ofList (reversed.takeWhile (· ≠ ':')).reverse)
  else (address, "9200")

/-- The address to listen on, where host and port may be replaced. -/
def listenAddress (address : String) (host : Option String) (port : Option Nat) : String :=
  let (configuredHost, configuredPort) := splitAddress address
  host.getD configuredHost ++ ":" ++ (port.map toString).getD configuredPort

end Settings

end Rollup
