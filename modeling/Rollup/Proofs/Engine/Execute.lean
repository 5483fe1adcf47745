import Rollup.Proofs.Aggregation.Site
import Rollup.Proofs.Engine.Prompt

/-! # Answers over a source

A request is counted once, and rows are fetched for each node at the top. An answer is made of what
the nodes evaluate to over the rows that were fetched for them.
-/

namespace Rollup.Engine

variable {source : Source} {limits : Limits} {request : Request} {cancelled : Bool}
  {summary : Summary}

/-- The rows that a source brings for a node. -/
def fetchedRows (source : Source) (request : Request) (node : Node) : List Row :=
  (source.fetch (scopeOf request node)).toOption.getD []

/-- Nodes that are fetched and built evaluate over the rows that were fetched for them. -/
theorem evaluated_of_mapM {created created' : Nat} (within : created ≤ limits.buckets)
    {nodes : List Node} (valid : ∀ node ∈ nodes, Forest.validate node.children = .ok ())
    {built : Entries Result}
    (h : (nodes.mapM (fetchAndBuild source limits request)).run created = .ok (built, created')) :
    List.Forall₂ (fun node entry => entry.1 = node.name ∧
      source.fetch (scopeOf request node) = .ok (fetchedRows source request node) ∧
      evaluate limits (fetchedRows source request node) node = .ok entry.2 ∧
      entry.2.bucketCount ≤ limits.buckets) nodes built := by
  induction nodes generalizing created created' built with
  | nil =>
      cases h
      exact .nil
  | cons node nodes ih =>
      rw [List.forall_mem_cons] at valid
      rw [List.mapM_cons, run_bind_eq_ok] at h
      obtain ⟨entry, middle, first, h⟩ := h
      obtain ⟨others, last, rest, h⟩ := run_bind_eq_ok.mp h
      obtain ⟨rfl, -⟩ := run_pure_eq_ok.mp h
      rw [fetchAndBuild_run, bind_eq_ok] at first
      obtain ⟨rows, fetch, first⟩ := first
      obtain ⟨⟨result, _⟩, ran, ⟨⟩⟩ := bind_eq_ok.mp first
      have fetched : fetchedRows source request node = rows := by
        rw [fetchedRows, fetch]
        rfl
      obtain ⟨evaluated, paid, enough⟩ :=
        (build_costs limits node (.all rows.toArray) valid.1 created within _ _).mp ran
      rw [RowSet.toList_all] at evaluated
      refine .cons ⟨rfl, ?_⟩ (ih enough valid.2 rest)
      rw [fetched]
      exact ⟨fetch, evaluated, (by omega : result.bucketCount ≤ limits.buckets)⟩

/-- An execution that is answered has validated the request, counted its rows, evaluated each node over
the rows that were fetched for it, and resolved the rest. -/
theorem execute_eq_ok [Memory]
    (answered : (execute source limits request cancelled).answer = some (.ok summary)) :
    Forest.validate request.nodes = .ok () ∧
      source.count request.table request.filter = .ok summary.count ∧
      ∃ built, Evaluated limits (fetchedRows source request) request.nodes built ∧
        resolve request.nodes built = .ok summary.results := by
  unfold execute at answered
  split at answered
  · cases answered
  cases valid : Forest.validate request.nodes with
  | error e =>
      rw [valid] at answered
      cases answered
  | ok =>
      rw [valid] at answered
      dsimp only at answered
      split at answered
      case h_1 =>
          unfold unanswered at answered
          split at answered <;> cases answered
      case h_2 => cases answered
      case h_3 counted _ =>
          simp only [run] at answered
          split at answered
          case isTrue => cases answered
          split at answered
          case h_1 =>
              unfold unanswered at answered
              split at answered <;> cases answered
          case h_2 collected =>
              obtain ⟨_, rfl, finished⟩ := bind_eq_ok.mp (Option.some.inj answered)
              obtain ⟨resolved, done, ⟨⟩⟩ := bind_eq_ok.mp finished
              have collected := congrArg Prod.fst collected
              rw [buildFrom_prompt (prompt_of_buildFrom collected), Option.some.injEq] at collected
              obtain ⟨⟨built, created⟩, made, rfl⟩ := map_eq_ok.mp collected
              have each := evaluated_of_mapM (Nat.zero_le _) (fun node member =>
                Forest.below_of_validate valid node (List.mem_of_mem_filter member)) made
              exact ⟨rfl, counted, built, each.imp fun _ _ h => ⟨h.1, h.2.2⟩, done⟩

end Rollup.Engine
