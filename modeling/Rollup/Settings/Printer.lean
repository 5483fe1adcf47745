import Rollup.Settings.Basic
import Rollup.Toml.Quoted

/-! # Writing settings

Each group of settings stands under its header, with an empty line before every header but the first.
A list of several texts takes a line for each.
-/

namespace Rollup.Settings

open Toml (quoted)

def flagText (b : Bool) : String := if b then "true" else "false"

def listText (items : List String) : String :=
  match items with
  | [] => "[]"
  | [item] => "[" ++ quoted item ++ "]"
  | items => "[\n" ++ String.join (items.map fun item => "    " ++ quoted item ++ ",\n") ++ "]"

/-- A group: its header, and its names with the texts of their values. -/
def groupText (header : String) (entries : List (String × String)) : String :=
  "[" ++ header ++ "]\n" ++ String.join (entries.map fun (name, text) => name ++ " = " ++ text ++ "\n")

/-- All settings as a text. -/
def text (settings : Settings) : String :=
  "\n".intercalate
    [groupText "server"
      [("bind_addr", quoted settings.server.address),
       ("max_body_size", toString settings.server.bodyLimit)],
     groupText "server.cors"
      [("enabled", flagText settings.server.crossOrigin.enabled),
       ("origins", listText settings.server.crossOrigin.origins)],
     groupText "data"
      [("tables_dir", quoted settings.tables)],
     groupText "aggregations"
      [("max_concurrent_builds", toString settings.limits.concurrentBuilds),
       ("max_buckets", toString settings.limits.buckets),
       ("default_terms_size", toString settings.limits.termsSize),
       ("request_timeout_ms", toString settings.limits.timeout)],
     groupText "observability"
      [("log_format", quoted settings.log.format),
       ("log_level", quoted settings.log.level),
       ("metrics_enabled", flagText settings.log.metrics)]]

end Rollup.Settings
