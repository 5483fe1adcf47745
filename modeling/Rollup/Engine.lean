import Rollup.Aggregation.Build
import Rollup.Aggregation.Resolve
import Rollup.Aggregation.Validation

/-! # Answering requests

A request is validated, its rows are counted, and then rows are fetched and built once for each node
at the top, in order. The first failure ends the request. An execution keeps a record of what the
source of rows was asked and of what is counted about the request.
-/

namespace Rollup

/-- A restriction to the rows of one bucket. -/
inductive KeyFilter where
  /-- The column holds the key. -/
  | equals (column : String) (key : Key)
  /-- The column holds a number or time from one bound on, up to another one but without it. -/
  | range (column : String) (start stop : Float)
  deriving DecidableEq, Repr

/-- What is fetched: some columns of the rows that fit, for one aggregation. -/
structure Scope where
  table : String
  aggregation : String
  columns : List String
  keyPath : List KeyFilter
  filter : Option Json

/-- A question to a source. -/
inductive Call where
  | count (table : String) (filter : Option Json)
  | fetch (scope : Scope)

/-- What a source does about a question. -/
inductive Manner where
  | prompt
  /-- It never answers. -/
  | silent
  /-- It has the request cancelled before it answers. -/
  | cancelling
  deriving DecidableEq, Repr

/-- How a source behaves, question by question. -/
abbrev Conduct := Call → Manner

namespace Conduct

/-- The same manner at every fetch, and a prompt count. -/
def atFetches (manner : Manner) : Conduct
  | .count _ _ => .prompt
  | .fetch _ => manner

def prompt : Conduct := fun _ => .prompt

/-- No fetch is ever answered. -/
def silent : Conduct := atFetches .silent

/-- Each fetch has the request cancelled. -/
def cancelling : Conduct := atFetches .cancelling

end Conduct

/-- Where rows come from. -/
structure Source where
  count : (table : String) → (filter : Option Json) → Except Error Nat
  fetch : Scope → Except Error (List Row)
  conduct : Conduct := .prompt

structure Request where
  table : String
  filter : Option Json
  nodes : List Node

/-- How a request ends. -/
inductive Outcome where
  | ok
  | invalid
  | timeout
  | cancelled
  | error
  deriving DecidableEq, Repr

def Outcome.label : Outcome → String
  | .ok => "ok"
  | .invalid => "invalid"
  | .timeout => "timeout"
  | .cancelled => "cancelled"
  | .error => "error"

/-- How a request ends with an answer. Of one that breaks down no end is known. -/
def Outcome.ofAnswer? : Except Error Summary → Option Outcome
  | .ok _ => some .ok
  | .error (.timeout _) => some .timeout
  | .error .cancelled => some .cancelled
  | .error (.invalidQuery _) => some .invalid
  | .error .breakdown => none
  | .error e => some (if e.isValidation then .invalid else .error)

/-- A request that has been dealt with. -/
structure Execution where
  /-- The answer, unless the request waits for ever. A breakdown stands for one that is not given. -/
  answer : Option (Except Error Summary)
  /-- What the source was asked, in order. -/
  calls : List Call
  /-- How many rows each fetch brought. -/
  fetched : List Nat

namespace Engine

variable [Memory]

/-- The summary of a forest whose nodes, pipelines aside, are built. -/
def finish (nodes : List Node) (count : Nat) (built : Entries Result) : Except Error Summary := do
  return { count, results := ← resolve nodes built }

/-- The rows that a node at the top needs. -/
def scopeOf (request : Request) (node : Node) : Scope :=
  { table := request.table
    aggregation := node.name
    columns := node.columns
    keyPath := []
    filter := request.filter }

/-- Ask for the nodes that run beside one whose fetch is not answered, up to one at which the request
is cancelled. What is built of their rows is never collected. Gives whether the request is cancelled,
the scopes that were fetched and how many rows they brought. -/
def askBeside (source : Source) (request : Request) : List Node → Bool × List Scope × List Nat
  | [] => (false, [], [])
  | node :: nodes =>
      let scope := scopeOf request node
      let brought := match source.conduct (.fetch scope), source.fetch scope with
        | .silent, _ => []
        | _, .error _ => []
        | _, .ok rows => [rows.length]
      if source.conduct (.fetch scope) = .cancelling then (true, [scope], brought)
      else
        let (cancelled, scopes, fetched) := askBeside source request nodes
        (cancelled, scope :: scopes, brought ++ fetched)

/-- Fetch and build the nodes at the top, one after another, `created` buckets having been created
before. There is no result while a fetch is not answered; meanwhile as many nodes are asked for as may
run at once. Also gives the scopes that were fetched and how many rows they brought. -/
def buildFrom (source : Source) (limits : Limits) (request : Request) (created : Nat) :
    List Node → Option (Except Error (Entries Result)) × List Scope × List Nat
  | [] => (some (.ok []), [], [])
  | node :: nodes =>
      let scope := scopeOf request node
      match source.conduct (.fetch scope), source.fetch scope with
      | .silent, _ =>
          let (cancelled, scopes, fetched) :=
            askBeside source request (nodes.take (limits.concurrentBuilds - 1))
          (if cancelled then some (.error .cancelled) else none, scope :: scopes, fetched)
      | _, .error e => (some (.error e), [scope], [])
      | .cancelling, .ok rows => (some (.error .cancelled), [scope], [rows.length])
      | .prompt, .ok rows =>
          match (build limits (.all rows.toArray) node).run created with
          | .error e => (some (.error e), [scope], [rows.length])
          | .ok (result, created) =>
              let (rest, scopes, fetched) := buildFrom source limits request created nodes
              (rest.map (((node.name, result) :: ·) <$> ·), scope :: scopes,
                rows.length :: fetched)

/-- The answer where the source never gives one. -/
def unanswered (limits : Limits) : Option (Except Error Summary) :=
  if limits.timeout = 0 then none else some (.error (.timeout limits.timeout))

/-- Answer a valid request whose rows have been counted. If it was cancelled in the meantime, no node
is begun. -/
def run (source : Source) (limits : Limits) (request : Request) (cancelled : Bool) (count : Nat) :
    Option (Except Error Summary) × List Scope × List Nat :=
  let nodes := request.nodes.filter fun node => !node.isPipeline
  if cancelled ∧ ¬ nodes.isEmpty then (some (.error .cancelled), [], [])
  else match buildFrom source limits request 0 nodes with
    | (none, scopes, fetched) => (unanswered limits, scopes, fetched)
    | (some built, scopes, fetched) =>
        (some (built.bind (finish request.nodes count)), scopes, fetched)

/-- Answer a request. One that is cancelled beforehand asks the source nothing. -/
def execute (source : Source) (limits : Limits) (request : Request) (cancelled : Bool) :
    Execution :=
  if cancelled then ⟨some (.error .cancelled), [], []⟩
  else match Forest.validate request.nodes with
    | .error e => ⟨some (.error e), [], []⟩
    | .ok () =>
        let call := Call.count request.table request.filter
        match source.conduct call, source.count request.table request.filter with
        | .silent, _ => ⟨unanswered limits, [call], []⟩
        | _, .error e => ⟨some (.error e), [call], []⟩
        | manner, .ok count =>
            let (answer, scopes, fetched) :=
              run source limits request (manner = .cancelling) count
            ⟨answer, call :: scopes.map .fetch, fetched⟩

/-- The answer to a request, for one who waits for it: where no answer would ever come, waiting ends
and the request is cancelled. -/
def answer (source : Source) (limits : Limits) (request : Request) : Except Error Summary :=
  (execute source limits request false).answer.getD (.error .cancelled)

/-- Answer a forest over rows at hand; every node at the top sees all of them. -/
def aggregate (limits : Limits) (nodes : List Node) (rows : List Row) : Except Error Summary := do
  Forest.validate nodes
  let (built, _) ← (buildAll limits (.all rows.toArray) [] nodes).run 0
  finish nodes rows.length built

end Engine

namespace Execution

/-- What is counted about a request, by name and label. -/
def counters (execution : Execution) (request : Request) : Entries Nat :=
  let outcome := match execution.answer.bind Outcome.ofAnswer? with
    | none => []
    | some outcome =>
        let label := "\x7boutcome=" ++ outcome.label ++ "\x7d"
        [("strata_aggregation_duration_seconds" ++ label, 1),
         ("strata_aggregation_requests_total" ++ label, 1)]
  if execution.fetched.isEmpty then outcome
  else
    let label := "\x7btable=" ++ request.table ++ "\x7d"
    outcome ++ [("strata_rows_fetched_total" ++ label, execution.fetched.foldl (· + ·) 0)]

end Execution

end Rollup
