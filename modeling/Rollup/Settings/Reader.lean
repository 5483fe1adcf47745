import Rollup.Settings.Basic
import Rollup.Toml.Reader

/-! # Reading settings

Settings are written as a table of tables. What is left out keeps its default, and names that mean
nothing are passed over. A list can stand for a table: its items are the values in order. A moment
stands for a table that sets nothing.
-/

namespace Rollup.Settings

/-- A value of a record: its name, and how it is read into the record. -/
structure Entry (α : Type) where
  name : String
  read : α → Toml.Value → Option α

/-- Read a record. -/
def readRecord {α : Type} (entries : List (Entry α)) (record : α) : Toml.Value → Option α
  | .table _ members =>
      entries.foldlM (fun record entry => match members.lookup entry.name with
        | none => some record
        | some value => entry.read record value) record
  | .array items =>
      (entries.zip items).foldlM (fun record (entry, value) => entry.read record value) record
  | .tables items =>
      (entries.zip items).foldlM
        (fun record (entry, members) => entry.read record (.table .header members)) record
  | .moment _ => some record
  | _ => none

def readText : Toml.Value → Option String
  | .string text => some text
  | _ => none

def readCount : Toml.Value → Option Nat
  | .integer (.ofNat n) => some n
  | _ => none

def readFlag : Toml.Value → Option Bool
  | .bool b => some b
  | _ => none

def readTexts : Toml.Value → Option (List String)
  | .array items => items.mapM readText
  | _ => none

def readCrossOrigin : Server.CrossOrigin → Toml.Value → Option Server.CrossOrigin :=
  readRecord
    [⟨"enabled", fun r v => do return { r with enabled := ← readFlag v }⟩,
     ⟨"origins", fun r v => do return { r with origins := ← readTexts v }⟩]

def readServer : ServerSettings → Toml.Value → Option ServerSettings :=
  readRecord
    [⟨"bind_addr", fun r v => do return { r with address := ← readText v }⟩,
     ⟨"cors", fun r v => do return { r with crossOrigin := ← readCrossOrigin {} v }⟩,
     ⟨"max_body_size", fun r v => do return { r with bodyLimit := ← readCount v }⟩]

def readTables : String → Toml.Value → Option String :=
  readRecord [⟨"tables_dir", fun _ v => readText v⟩]

def readLimits : Limits → Toml.Value → Option Limits :=
  readRecord
    [⟨"max_concurrent_builds", fun r v => do return { r with concurrentBuilds := ← readCount v }⟩,
     ⟨"max_buckets", fun r v => do return { r with buckets := ← readCount v }⟩,
     ⟨"default_terms_size", fun r v => do return { r with termsSize := ← readCount v }⟩,
     ⟨"request_timeout_ms", fun r v => do return { r with timeout := ← readCount v }⟩]

def readLog : LogSettings → Toml.Value → Option LogSettings :=
  readRecord
    [⟨"log_format", fun r v => do return { r with format := ← readText v }⟩,
     ⟨"log_level", fun r v => do return { r with level := ← readText v }⟩,
     ⟨"metrics_enabled", fun r v => do return { r with metrics := ← readFlag v }⟩]

/-- The settings that a value spells. -/
def ofValue? : Toml.Value → Option Settings :=
  readRecord
    [⟨"server", fun r v => do return { r with server := ← readServer r.server v }⟩,
     ⟨"data", fun r v => do return { r with tables := ← readTables r.tables v }⟩,
     ⟨"aggregations", fun r v => do return { r with limits := ← readLimits r.limits v }⟩,
     ⟨"observability", fun r v => do return { r with log := ← readLog r.log v }⟩] {}

/-- Why a text gives no settings. -/
inductive ReadFault where
  | unreadable
  | invalid (fault : Fault)
  deriving DecidableEq, Repr

/-- The settings that a text spells, the home directory being put in. -/
def ofText (home : String) (text : List Char) : Except ReadFault Settings :=
  match (Toml.ofText? text).bind ofValue? with
  | none => .error .unreadable
  | some settings =>
      let settings := { settings with tables := underHome home settings.tables }
      match settings.fault? with
      | some fault => .error (.invalid fault)
      | none => .ok settings

end Rollup.Settings
