/-! # The command line

An option is given at most once, with its value attached or as the next argument. A value that stands
apart is looked at only when the argument behind it has been recognised, so an argument that means
nothing is told of first.
-/

namespace Rollup

/-- What a command line asks for. -/
structure CommandLine where
  /-- The file of the settings. -/
  settings : String := "strata.toml"
  host : Option String := none
  port : Option Nat := none
  deriving DecidableEq, Repr, Inhabited

namespace CommandLine

/-- Why a command line is not run: a fault, or a wish to be told something. -/
inductive Stop where
  | unknownArgument
  | missingValue
  | unneededValue
  | badValue
  | repeatedOption
  | help
  | version
  deriving DecidableEq, Repr

/-- What an option sets. -/
inductive Target where
  | settings
  | host
  | port
  deriving DecidableEq, Repr

/-- What a name in front of a value, or alone, stands for. -/
inductive Meaning where
  | sets (target : Target)
  | asks (stop : Stop)
  deriving DecidableEq, Repr

def longMeaning? (name : String) : Option Meaning :=
  match name with
  | "config" => some (.sets .settings)
  | "host" => some (.sets .host)
  | "port" => some (.sets .port)
  | "help" => some (.asks .help)
  | "version" => some (.asks .version)
  | _ => none

def shortMeaning? (letter : Char) : Option Meaning :=
  match letter with
  | 'c' => some (.sets .settings)
  | 'p' => some (.sets .port)
  | 'h' => some (.asks .help)
  | 'V' => some (.asks .version)
  | _ => none

/-- A port: decimal digits, perhaps behind a sign, for a number from 0 to 65535. -/
def portOf? (text : String) : Option Nat :=
  let (negative, digits) := match text.toList with
    | '+' :: rest => (false, rest)
    | '-' :: rest => (true, rest)
    | rest => (false, rest)
  if digits.isEmpty ∨ ¬ digits.all (fun c => '0' ≤ c && c ≤ '9') then none
  else
    let n := digits.foldl (fun n c => 10 * n + (c.toNat - '0'.toNat)) 0
    if (if negative then n = 0 else n < 65536) then some n else none

/-- Options that have been read. -/
structure State where
  settings : Option String := none
  host : Option String := none
  port : Option Nat := none
  /-- The option whose value stands apart, and that value once it is there. -/
  waiting : Option (Target × Option String) := none

namespace State

/-- Set an option. That it is given twice is found before its value is looked at. -/
def give (state : State) (target : Target) (value : String) : Except Stop State :=
  match target with
  | .settings =>
      if state.settings.isSome then .error .repeatedOption
      else .ok { state with settings := some value }
  | .host =>
      if state.host.isSome then .error .repeatedOption else .ok { state with host := some value }
  | .port =>
      if state.port.isSome then .error .repeatedOption
      else match portOf? value with
        | some port => .ok { state with port := some port }
        | none => .error .badValue

/-- Set the option whose value stands apart, if there is one. -/
def settle (state : State) : Except Stop State :=
  match state.waiting with
  | none => .ok state
  | some (_, none) => .error .missingValue
  | some (target, some value) => { state with waiting := none }.give target value

/-- Take in an option with the value attached to it, if any. -/
def takeOption (state : State) (meaning : Option Meaning) (value : Option String) :
    Except Stop State :=
  match meaning, value with
  | none, _ => .error .unknownArgument
  | some (.asks _), some _ => .error .unneededValue
  | some (.asks stop), none => do
      let _ ← state.settle
      throw stop
  | some (.sets target), some value => do (← state.settle).give target value
  | some (.sets target), none => do return { ← state.settle with waiting := some (target, none) }

/-- Take in an argument that is no option: only an option that waits for a value has a use for it. -/
def takeValue (state : State) (value : String) : Except Stop State :=
  match state.waiting with
  | some (target, none) => .ok { state with waiting := some (target, some value) }
  | _ => .error .unknownArgument

/-- Take in an argument. A letter takes the rest of its argument as its value. -/
def take (state : State) (argument : String) : Except Stop State :=
  match argument.toList with
  | '-' :: '-' :: option =>
      let name := String.ofList (option.takeWhile (· ≠ '='))
      let value := match option.dropWhile (· ≠ '=') with
        | _ :: value => some (String.ofList value)
        | [] => none
      state.takeOption (longMeaning? name) value
  | ['-', letter] => state.takeOption (shortMeaning? letter) none
  | '-' :: letter :: rest =>
      match shortMeaning? letter with
      | some (.asks stop) => state.takeOption (some (.asks stop)) none
      | meaning =>
          let value := match rest with
            | '=' :: value => value
            | value => value
          state.takeOption meaning (some (String.ofList value))
  | _ => state.takeValue argument

/-- Take in arguments up to the mark behind which no options stand. Nothing may stand there. -/
def takeAll (state : State) : List String → Except Stop State
  | [] => .ok state
  | argument :: arguments =>
      if argument = "--" then
        if arguments.isEmpty then .ok state else .error .unknownArgument
      else do (← state.take argument).takeAll arguments

end State

/-- Read the arguments behind the name of the program. -/
def ofArguments (arguments : List String) : Except Stop CommandLine := do
  let state ← (← State.takeAll {} arguments).settle
  let default : CommandLine := {}
  return { settings := state.settings.getD default.settings, host := state.host, port := state.port }

end CommandLine

end Rollup
