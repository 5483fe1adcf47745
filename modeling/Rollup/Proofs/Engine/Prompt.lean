import Rollup.Engine
import Rollup.Proofs.Success

/-! # Sources that answer at once

Where fetches are answered at once and none has the request cancelled, the nodes at the top are fetched
and built one after another, and an answer is one computation.
-/

namespace Rollup.Engine

variable {source : Source} {limits : Limits} {request : Request}

/-- Fetch the rows of a node and build it of them. -/
def fetchAndBuild (source : Source) (limits : Limits) (request : Request) (node : Node) :
    BuildM (String × Result) := do
  let rows ← source.fetch (scopeOf request node)
  return (node.name, ← build limits (.all rows.toArray) node)

theorem fetchAndBuild_run (node : Node) (created : Nat) :
    (fetchAndBuild source limits request node).run created = do
      let rows ← source.fetch (scopeOf request node)
      let (result, created) ← (build limits (.all rows.toArray) node).run created
      return ((node.name, result), created) := by
  rw [fetchAndBuild, StateT.run_bind]
  cases source.fetch (scopeOf request node) with
  | error e => rfl
  | ok rows =>
      show ((build limits (.all rows.toArray) node >>= fun result =>
        pure (node.name, result)) : BuildM _).run created = _
      rw [StateT.run_bind]
      rfl

/-- Fetching and building node by node is one computation. -/
theorem buildFrom_prompt {nodes : List Node}
    (prompt : ∀ node ∈ nodes, source.conduct (.fetch (scopeOf request node)) = .prompt)
    (created : Nat) :
    (buildFrom source limits request created nodes).1 =
      some (Prod.fst <$> (nodes.mapM (fetchAndBuild source limits request)).run created) := by
  induction nodes generalizing created with
  | nil => rfl
  | cons node nodes ih =>
      rw [List.forall_mem_cons] at prompt
      rw [buildFrom, List.mapM_cons, StateT.run_bind, fetchAndBuild_run]
      dsimp only
      rw [prompt.1]
      cases source.fetch (scopeOf request node) with
      | error e => rfl
      | ok rows =>
          simp only [StateT.run_bind, ih prompt.2]
          simp only [bind, Except.bind]
          cases (build limits (.all rows.toArray) node).run created with
          | error e => rfl
          | ok made =>
              simp only [pure, Except.pure]
              cases (nodes.mapM (fetchAndBuild source limits request)).run made.2 <;> rfl

/-- Only fetches that are answered at once come to something. -/
theorem prompt_of_buildFrom {nodes : List Node} {created : Nat} {built : Entries Result}
    (h : (buildFrom source limits request created nodes).1 = some (.ok built)) :
    ∀ node ∈ nodes, source.conduct (.fetch (scopeOf request node)) = .prompt := by
  induction nodes generalizing created built with
  | nil => exact fun _ none => by cases none
  | cons node nodes ih =>
      rw [buildFrom] at h
      dsimp only at h
      split at h
      case h_1 =>
          dsimp only at h
          split at h <;> cases h
      case h_2 => cases h
      case h_3 => cases h
      case h_4 rows prompt fetched =>
          rw [List.forall_mem_cons]
          refine ⟨prompt, ?_⟩
          split at h
          · cases h
          · obtain ⟨rest, collected, kept⟩ := Option.map_eq_some_iff.mp h
            obtain ⟨others, rfl, -⟩ := map_eq_ok.mp kept
            exact ih collected

/-- An answer of a source that is prompt throughout, without a cancellation. -/
theorem execute_prompt [Memory] (prompt : source.conduct = .prompt) :
    (execute source limits request false).answer = some (do
      Forest.validate request.nodes
      let count ← source.count request.table request.filter
      let (built, _) ← ((request.nodes.filter fun node => !node.isPipeline).mapM
        (fetchAndBuild source limits request)).run 0
      finish request.nodes count built) := by
  rw [execute, if_neg (by decide)]
  cases Forest.validate request.nodes with
  | error e => rfl
  | ok =>
      simp only [prompt, Conduct.prompt]
      cases source.count request.table request.filter with
      | error e => rfl
      | ok count =>
          have built : (buildFrom source limits request 0
              (request.nodes.filter fun node => !node.isPipeline)).1 = _ :=
            buildFrom_prompt (fun node _ => congrFun prompt (.fetch (scopeOf request node))) 0
          simp only [run]
          generalize buildFrom source limits request 0 _ = made at built
          obtain ⟨made, scopes, fetched⟩ := made
          obtain rfl : made = _ := built
          cases (List.mapM (fetchAndBuild source limits request) _).run 0 <;> rfl

end Rollup.Engine
