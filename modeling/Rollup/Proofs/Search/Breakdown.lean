import Rollup.Proofs.Aggregation.Failures
import Rollup.Search.Answer

/-! # Searches that break down

A request breaks down because its source does, or because memory cannot be set aside for the window of
a moving average in its forest; and a search breaks down with the request that it makes. Nothing else
breaks it down.
-/

namespace Rollup

/-- A source that breaks down over some question. -/
inductive Source.BreaksDown (source : Source) : Prop where
  | counting {table : String} {filter : Option Json} :
      source.count table filter = .error .breakdown → BreaksDown source
  | fetching {scope : Scope} : source.fetch scope = .error .breakdown → BreaksDown source

namespace Engine

variable {source : Source} {limits : Limits} {request : Request}

/-- Fetching and building break down only where the source does. -/
theorem breaksDown_of_buildFrom {nodes : List Node} (plain : ∀ node ∈ nodes, ¬ node.isPipeline)
    {created : Nat}
    (h : (buildFrom source limits request created nodes).1 = some (.error .breakdown)) :
    source.BreaksDown := by
  induction nodes generalizing created with
  | nil => cases h
  | cons node nodes ih =>
      rw [List.forall_mem_cons] at plain
      rw [buildFrom] at h
      dsimp only at h
      split at h
      case h_1 =>
        dsimp only at h
        split at h <;> cases h
      case h_2 failed _ =>
        cases h
        exact .fetching failed
      case h_3 => cases h
      case h_4 =>
        split at h
        case h_1 failed =>
          cases h
          exact absurd rfl (build_raises limits node _ plain.1 created _ failed).ne_breakdown
        case h_2 =>
          dsimp only at h
          obtain ⟨rest, after, same⟩ := Option.map_eq_some_iff.mp h
          cases rest with
          | error e =>
              cases same
              exact ih plain.2 after
          | ok entries => cases same

theorem unanswered_ne_breakdown : unanswered limits ≠ some (.error .breakdown) := by
  unfold unanswered
  split <;> nofun

variable [Memory]

/-- Once the rows are counted, what is left breaks down in fetching or in resolving. -/
theorem breaksDown_of_run {cancelled : Bool} {count : Nat}
    (h : (run source limits request cancelled count).1 = some (.error .breakdown)) :
    source.BreaksDown ∨ Forest.Overreaches request.nodes := by
  dsimp only [run] at h
  split at h
  · cases h
  split at h
  case h_1 => exact absurd h unanswered_ne_breakdown
  case h_2 built _ _ ran =>
    cases built with
    | error e =>
        cases h
        refine .inl (breaksDown_of_buildFrom (fun node member => ?_) (congrArg Prod.fst ran))
        simpa using (List.mem_filter.mp member).2
    | ok entries =>
        have failed : finish request.nodes count entries = .error .breakdown := Option.some.inj h
        have raised := RaisesOnly.bind (resolve_raises request.nodes entries) (fun _ => .ok) _ failed
        cases raised with
        | request fault => cases fault
        | breakdown overreaches => exact .inr overreaches

/-- A request breaks down only if its source does or its forest asks for too large a window. -/
theorem breaksDown_of_execute {cancelled : Bool}
    (h : (execute source limits request cancelled).answer = some (.error .breakdown)) :
    source.BreaksDown ∨ Forest.Overreaches request.nodes := by
  unfold execute at h
  split at h
  · cases h
  split at h
  case h_1 e refused =>
    -- Validation raises errors about the request only.
    cases h
    cases Forest.validate_raises _ _ refused
  case h_2 =>
    dsimp only at h
    split at h
    case h_1 => exact absurd h unanswered_ne_breakdown
    case h_2 failed _ =>
      cases h
      exact .inl (.counting failed)
    case h_3 => exact breaksDown_of_run h

theorem breaksDown_of_answer (h : answer source limits request = .error .breakdown) :
    source.BreaksDown ∨ Forest.Overreaches request.nodes := by
  unfold answer at h
  cases ended : (execute source limits request false).answer with
  | none =>
      rw [ended] at h
      cases h
  | some result =>
      rw [ended] at h
      cases h
      exact breaksDown_of_execute ended

end Engine

namespace Search

/-! ## Making a request -/

theorem fieldOf_raises (name : String) (body : Entries Json) :
    RaisesOnly (fun error => ¬ error.isBreakdown) (fieldOf name body) := by
  unfold fieldOf
  split
  · exact .ok
  · exact .ok
  · exact .error nofun

theorem nodeOf_raises (name typeName : String) (body : Entries Json) (children : List Node) :
    RaisesOnly (fun error => ¬ error.isBreakdown) (nodeOf name typeName body children) := by
  refine .bind (fieldOf_raises name body) fun field => .refuse nofun ?_
  split
  case h_1 => exact .ok
  case h_2 error failed =>
    have fault : OfContent error :=
      RaisesOnly.bind (find_raises typeName field) (fun _ => .ok) _ failed
    refine .error fun breakdown => ?_
    cases error with
    | breakdown => cases fault
    | _ => cases breakdown

mutual

theorem Definition.node_raises : ∀ (name : String) (definition : Definition),
    RaisesOnly (fun error => ¬ error.isBreakdown) (definition.node name)
  | name, ⟨typeName, body, nested, _⟩ => by
      rw [Definition.node]
      exact .bind (nestedNodes_raises nested) fun children =>
        nodeOf_raises name typeName body children

theorem nestedNodes_raises : ∀ nested : Option (List (String × Definition)),
    RaisesOnly (fun error => ¬ error.isBreakdown) (nestedNodes nested)
  | none => .ok
  | some definitions => by
      rw [nestedNodes]
      exact nodesOf_raises definitions

theorem nodesOf_raises : ∀ definitions : List (String × Definition),
    RaisesOnly (fun error => ¬ error.isBreakdown) (nodesOf definitions)
  | [] => .ok
  | (name, definition) :: definitions => by
      rw [nodesOf]
      exact .bind (definition.node_raises name) fun _ =>
        .bind (nodesOf_raises definitions) fun _ => .ok

end

section Searching

variable [Memory]

/-- A body asks, at any depth, for a larger window than memory can be set aside for. -/
def Body.Overreaches (body : Body) : Prop :=
  ∃ nodes, body.nodes = .ok nodes ∧ Forest.Overreaches nodes

/-- A search breaks down only if its source does or its body asks for too large a window. -/
theorem breaksDown_of_search {source : Source} {limits : Limits} {table : String} {body : Body}
    {error : Error} (failed : search source limits table body = .error error)
    (breakdown : error.isBreakdown) : source.BreaksDown ∨ body.Overreaches := by
  cases asked : body.nodes with
  | error refused =>
      rw [search, asked] at failed
      cases failed
      exact absurd breakdown (nestedNodes_raises body.aggregations _ asked)
  | ok nodes =>
      rw [search, asked] at failed
      simp only [bind, Except.bind] at failed
      split at failed
      case h_1 => cases failed
      case h_2 fault answered =>
        cases failed
        cases fault with
        | breakdown =>
            exact (Engine.breaksDown_of_answer answered).imp_right fun beyond =>
              ⟨nodes, asked, beyond⟩
        | _ => cases breakdown

end Searching

end Search

end Rollup
