import Rollup.Proofs.Aggregation.Validation
import Rollup.Proofs.Engine.Prompt

/-! # What a source is asked

A source is asked nothing about a request that is cancelled or refused. Otherwise it is asked for the
count, and then for the rows of one node after another, until there is a cancellation, or a failure
after nodes that are all built. Beside a fetch that is not answered nodes are asked for whether or not
the ones between them fail.
-/

namespace Rollup.Engine

variable {source : Source} {limits : Limits} {request : Request}

/-- The question for the rows of a node at the top. -/
def asks (request : Request) (node : Node) : Call := .fetch (scopeOf request node)

/-- Nodes that are fetched at once and built, one after another. They bring the number of buckets from
`start` to `created`. -/
structure Done (source : Source) (limits : Limits) (request : Request) (start : Nat)
    (nodes : List Node) (created : Nat) : Prop where
  prompt : ∀ node ∈ nodes, source.conduct (asks request node) = .prompt
  built : ∃ entries,
    (nodes.mapM (fetchAndBuild source limits request)).run start = .ok (entries, created)

/-- A node ends the request with an error, `created` buckets having been created before. -/
inductive Halts (source : Source) (limits : Limits) (request : Request) (created : Nat)
    (node : Node) : Error → Prop where
  | fetch {e : Error} (answers : source.conduct (asks request node) ≠ .silent)
      (failed : source.fetch (scopeOf request node) = .error e) :
      Halts source limits request created node e
  | build {e : Error} {rows : List Row} (prompt : source.conduct (asks request node) = .prompt)
      (fetched : source.fetch (scopeOf request node) = .ok rows)
      (failed : (Rollup.build limits (.all rows.toArray) node).run created = .error e) :
      Halts source limits request created node e
  /-- The request is cancelled while the rows are fetched. -/
  | cancelled {rows : List Row} (cancels : source.conduct (asks request node) = .cancelling)
      (fetched : source.fetch (scopeOf request node) = .ok rows) :
      Halts source limits request created node .cancelled

/-- A node is fetched at once and built. It brings the number of buckets from `start` to `created`. -/
structure Passes (source : Source) (limits : Limits) (request : Request) (start : Nat)
    (node : Node) (created : Nat) : Prop where
  prompt : source.conduct (asks request node) = .prompt
  built : ∃ entry, (fetchAndBuild source limits request node).run start = .ok (entry, created)

theorem Halts.unique {created : Nat} {node : Node} {e e' : Error}
    (h : Halts source limits request created node e)
    (h' : Halts source limits request created node e') : e = e' := by
  cases h <;> cases h' <;> simp_all

theorem Passes.not_halts {start created : Nat} {node : Node} {e : Error}
    (passes : Passes source limits request start node created) :
    ¬ Halts source limits request start node e := by
  obtain ⟨prompt, entry, ran⟩ := passes
  rw [fetchAndBuild_run] at ran
  obtain ⟨rows, fetched, ran⟩ := bind_eq_ok.mp ran
  obtain ⟨made, built, -⟩ := bind_eq_ok.mp ran
  intro halts
  cases halts <;> simp_all

theorem Done.nil_iff {start created : Nat} :
    Done source limits request start [] created ↔ start = created := by
  constructor
  · rintro ⟨-, entries, ran⟩
    exact (run_pure_eq_ok.mp ran).2
  · rintro rfl
    exact ⟨nofun, [], rfl⟩

theorem Passes.done_cons_iff {start middle created : Nat} {node : Node} {nodes : List Node}
    (passes : Passes source limits request start node middle) :
    Done source limits request start (node :: nodes) created ↔
      Done source limits request middle nodes created := by
  obtain ⟨prompt, entry, ran⟩ := passes
  constructor
  · rintro ⟨each, entries, all⟩
    rw [List.mapM_cons, run_bind_eq_ok] at all
    obtain ⟨first, between, same, all⟩ := all
    obtain ⟨others, last, rest, -, rfl⟩ := run_bind_eq_ok.mp all
    cases ran.symm.trans same
    exact ⟨(List.forall_mem_cons.mp each).2, others, rest⟩
  · rintro ⟨each, entries, rest⟩
    refine ⟨List.forall_mem_cons.mpr ⟨prompt, each⟩, entry :: entries, ?_⟩
    rw [List.mapM_cons, run_bind_eq_ok]
    exact ⟨entry, middle, ran, run_bind_eq_ok.mpr ⟨entries, created, rest, rfl⟩⟩

/-- What is asked for of the nodes at the top, in their order, and what comes of it. -/
structure Reaches {α : Type} (source : Source) (limits : Limits) (request : Request) (start : Nat)
    (nodes asked : List Node) (answer : Option (Except Error α)) : Prop where
  first : asked <+: nodes
  complete : ∀ value, answer = some (.ok value) → asked = nodes
  /-- A node is asked for after the ones before it are built, unless one of them is not answered. -/
  after : ∀ before node rest, asked = before ++ node :: rest →
    (∀ other ∈ before, source.conduct (asks request other) ≠ .silent) →
      ∃ created, Done source limits request start before created
  /-- No more than the nodes that may run beside it are asked for after one that is not answered. -/
  beside : ∀ before node rest, asked = before ++ node :: rest →
    source.conduct (asks request node) = .silent → rest.length ≤ limits.concurrentBuilds - 1
  /-- Nothing is asked for after a failure if all nodes before it are built. -/
  halted : ∀ before node rest created e, asked = before ++ node :: rest →
    Done source limits request start before created → Halts source limits request created node e →
      rest = [] ∧ answer = some (.error e)
  /-- Nothing is asked for after a cancellation. -/
  cancelled : ∀ before node rest, asked = before ++ node :: rest →
    source.conduct (asks request node) = .cancelling →
      rest = [] ∧ ∀ rows, source.fetch (scopeOf request node) = .ok rows →
        answer = some (.error .cancelled)
  /-- Nodes are left out for a failure or for want of an answer only. -/
  stopped : asked ≠ nodes → ∃ before node rest, asked = before ++ node :: rest ∧
    (source.conduct (asks request node) = .silent ∨
      ∃ created e, Done source limits request start before created ∧
        Halts source limits request created node e)

/-- A node of a list is the first one or one of the others. -/
theorem cut_cons {first node : Node} {asked before rest : List Node}
    (split : first :: asked = before ++ node :: rest) :
    (before = [] ∧ first = node ∧ asked = rest) ∨
      ∃ others, before = first :: others ∧ asked = others ++ node :: rest := by
  rcases List.cons_eq_append_iff.mp split with ⟨rfl, same⟩ | later
  · exact .inl ⟨rfl, (List.cons.inj same).1.symm, (List.cons.inj same).2.symm⟩
  · exact .inr later

/-- What is asked for beside a fetch that is not answered. It ends where the request is cancelled. -/
theorem askBeside_asks (source : Source) (request : Request) (nodes : List Node) :
    ∃ asked, (askBeside source request nodes).2.1 = asked.map (scopeOf request) ∧ asked <+: nodes ∧
      ∀ before node rest, asked = before ++ node :: rest →
        source.conduct (asks request node) = .cancelling →
          rest = [] ∧ (askBeside source request nodes).1 = true := by
  induction nodes with
  | nil => exact ⟨[], rfl, ⟨[], rfl⟩, fun before node rest split => by simp at split⟩
  | cons first nodes ih =>
      rw [askBeside]
      dsimp only
      split
      case isTrue cancels =>
          refine ⟨[first], rfl, ⟨nodes, rfl⟩, fun before node rest split _ => ⟨?_, rfl⟩⟩
          obtain ⟨-, -, rfl⟩ | ⟨others, -, none⟩ := cut_cons split
          · rfl
          · simp at none
      case isFalse goes =>
          obtain ⟨asked, scopes, ⟨left, rfl⟩, ends⟩ := ih
          refine ⟨first :: asked, ?_, ⟨left, rfl⟩, fun before node rest split cancels => ?_⟩
          · rw [List.map_cons, ← scopes]
          · obtain ⟨-, rfl, -⟩ | ⟨others, -, later⟩ := cut_cons split
            · exact absurd cancels goes
            · exact ends others node rest later cancels

namespace Reaches

variable {α β : Type} {start : Nat} {node : Node} {nodes asked : List Node}
  {answer : Option (Except Error α)}

theorem nil : Reaches source limits request start [] [] answer where
  first := ⟨[], rfl⟩
  complete _ _ := rfl
  after before node rest split := by simp at split
  beside before node rest split := by simp at split
  halted before node rest created e split := by simp at split
  cancelled before node rest split := by simp at split
  stopped left := absurd rfl left

/-- A node that is not answered. -/
theorem waits (waiting : source.conduct (asks request node) = .silent) {cancelled : Bool}
    (first : asked <+: nodes.take (limits.concurrentBuilds - 1))
    (ends : ∀ before other rest, asked = before ++ other :: rest →
      source.conduct (asks request other) = .cancelling → rest = [] ∧ cancelled = true) :
    Reaches (α := α) source limits request start (node :: nodes) (node :: asked)
      (if cancelled then some (.error .cancelled) else none) where
  first := List.cons_prefix_cons.mpr ⟨rfl, first.trans (List.take_prefix _ _)⟩
  complete value answered := by split at answered <;> cases answered
  after before other rest split answers := by
    obtain ⟨rfl, -, -⟩ | ⟨others, rfl, -⟩ := cut_cons split
    · exact ⟨start, Done.nil_iff.mpr rfl⟩
    · exact absurd waiting (answers node List.mem_cons_self)
  beside before other rest split _ := by
    have bound := first.length_le.trans (List.length_take_le _ _)
    obtain ⟨-, -, rfl⟩ | ⟨others, -, rfl⟩ := cut_cons split
    · exact bound
    · rw [List.length_append, List.length_cons] at bound
      omega
  halted before other rest created e split done halts := by
    obtain ⟨rfl, rfl, -⟩ | ⟨others, rfl, -⟩ := cut_cons split
    · cases halts <;> simp_all
    · cases waiting.symm.trans (done.prompt node List.mem_cons_self)
  cancelled before other rest split cancels := by
    obtain ⟨-, rfl, -⟩ | ⟨others, -, later⟩ := cut_cons split
    · cases waiting.symm.trans cancels
    · obtain ⟨last, rfl⟩ := ends others other rest later cancels
      exact ⟨last, fun _ _ => rfl⟩
  stopped _ := ⟨[], node, asked, rfl, .inl waiting⟩

/-- A node that ends the request. -/
theorem halts {e : Error} (halts : Halts source limits request start node e) :
    Reaches (α := α) source limits request start (node :: nodes) [node] (some (.error e)) where
  first := ⟨nodes, rfl⟩
  complete value answered := by cases answered
  after before other rest split _ := by
    obtain ⟨rfl, -, -⟩ | ⟨others, -, none⟩ := cut_cons split
    · exact ⟨start, Done.nil_iff.mpr rfl⟩
    · simp at none
  beside before other rest split _ := by
    obtain ⟨-, -, rfl⟩ | ⟨others, -, none⟩ := cut_cons split
    · exact Nat.zero_le _
    · simp at none
  halted before other rest created e' split done halts' := by
    obtain ⟨rfl, rfl, rfl⟩ | ⟨others, -, none⟩ := cut_cons split
    · obtain rfl := Done.nil_iff.mp done
      rw [halts.unique halts']
      exact ⟨rfl, rfl⟩
    · simp at none
  cancelled before other rest split cancels := by
    obtain ⟨rfl, rfl, rfl⟩ | ⟨others, -, none⟩ := cut_cons split
    · refine ⟨rfl, fun rows fetched => ?_⟩
      rw [halts.unique (.cancelled cancels fetched)]
    · simp at none
  stopped _ := ⟨[], node, [], rfl, .inr ⟨start, e, Done.nil_iff.mpr rfl, halts⟩⟩

/-- A node after which the next ones follow. -/
theorem passes {created : Nat} (passes : Passes source limits request start node created)
    (rest : Reaches source limits request created nodes asked answer) {f : α → β} :
    Reaches source limits request start (node :: nodes) (node :: asked)
      (answer.map (f <$> ·)) where
  first := List.cons_prefix_cons.mpr ⟨rfl, rest.first⟩
  complete value answered := by
    obtain ⟨rest', answered, mapped⟩ := Option.map_eq_some_iff.mp answered
    obtain ⟨value, rfl, -⟩ := map_eq_ok.mp mapped
    rw [rest.complete value answered]
  after before other later split answers := by
    obtain ⟨rfl, -, -⟩ | ⟨others, rfl, within⟩ := cut_cons split
    · exact ⟨start, Done.nil_iff.mpr rfl⟩
    · obtain ⟨last, done⟩ :=
        rest.after others other later within (List.forall_mem_cons.mp answers).2
      exact ⟨last, passes.done_cons_iff.mpr done⟩
  beside before other later split waiting := by
    obtain ⟨rfl, rfl, -⟩ | ⟨others, rfl, within⟩ := cut_cons split
    · cases waiting.symm.trans passes.prompt
    · exact rest.beside others other later within waiting
  halted before other later last e split done halts := by
    obtain ⟨rfl, rfl, -⟩ | ⟨others, rfl, within⟩ := cut_cons split
    · obtain rfl := Done.nil_iff.mp done
      exact absurd halts passes.not_halts
    · obtain ⟨none, rfl⟩ :=
        rest.halted others other later last e within (passes.done_cons_iff.mp done) halts
      exact ⟨none, rfl⟩
  cancelled before other later split cancels := by
    obtain ⟨rfl, rfl, -⟩ | ⟨others, rfl, within⟩ := cut_cons split
    · cases cancels.symm.trans passes.prompt
    · obtain ⟨none, ends⟩ := rest.cancelled others other later within cancels
      refine ⟨none, fun rows fetched => ?_⟩
      rw [ends rows fetched]
      rfl
  stopped left := by
    obtain ⟨before, other, later, rfl, reason⟩ := rest.stopped fun all => left (all ▸ rfl)
    refine ⟨node :: before, other, later, rfl, reason.imp_right ?_⟩
    rintro ⟨last, e, done, halts⟩
    exact ⟨last, e, passes.done_cons_iff.mpr done, halts⟩

/-- An answer that keeps the errors, and is a value only where there was one. -/
theorem imp (h : Reaches source limits request start nodes asked answer)
    {answer' : Option (Except Error β)}
    (errors : ∀ e, answer = some (.error e) → answer' = some (.error e))
    (values : ∀ value, answer' = some (.ok value) → ∃ value, answer = some (.ok value)) :
    Reaches source limits request start nodes asked answer' where
  first := h.first
  complete value answered := by
    obtain ⟨value, answered⟩ := values value answered
    exact h.complete value answered
  after := h.after
  beside := h.beside
  halted before other rest created e split done halts :=
    (h.halted before other rest created e split done halts).imp_right (errors e)
  cancelled before other rest split cancels :=
    (h.cancelled before other rest split cancels).imp_right fun ends rows fetched =>
      errors _ (ends rows fetched)
  stopped := h.stopped

end Reaches

/-- What is asked for while the nodes at the top are fetched and built. -/
theorem reaches_of_buildFrom (source : Source) (limits : Limits) (request : Request)
    (nodes : List Node) (start : Nat) :
    ∃ asked, (buildFrom source limits request start nodes).2.1 = asked.map (scopeOf request) ∧
      Reaches source limits request start nodes asked
        (buildFrom source limits request start nodes).1 := by
  induction nodes generalizing start with
  | nil => exact ⟨[], rfl, .nil⟩
  | cons node nodes ih =>
      rw [buildFrom]
      dsimp only
      split
      case h_1 waiting =>
          obtain ⟨asked, scopes, first, ends⟩ :=
            askBeside_asks source request (nodes.take (limits.concurrentBuilds - 1))
          refine ⟨node :: asked, ?_, .waits waiting first ends⟩
          rw [List.map_cons, ← scopes]
      case h_2 e failed answers => exact ⟨[node], rfl, .halts (.fetch answers failed)⟩
      case h_3 rows cancels fetched => exact ⟨[node], rfl, .halts (.cancelled cancels fetched)⟩
      case h_4 rows prompt fetched =>
          split
          case h_1 e failed => exact ⟨[node], rfl, .halts (.build prompt fetched failed)⟩
          case h_2 result created built =>
              have passes : Passes source limits request start node created := by
                refine ⟨prompt, (node.name, result), ?_⟩
                rw [fetchAndBuild_run, fetched]
                exact bind_eq_ok.mpr ⟨rows, rfl, bind_eq_ok.mpr ⟨_, built, rfl⟩⟩
              obtain ⟨asked, scopes, rest⟩ := ih created
              refine ⟨node :: asked, ?_, rest.passes passes⟩
              rw [List.map_cons, ← scopes]

/-- What is asked after the forest is found valid: the count, and then rows. -/
structure Asks (source : Source) (limits : Limits) (request : Request) (execution : Execution)
    (asked : List Node) : Prop where
  calls : execution.calls = .count request.table request.filter :: asked.map fun node =>
    .fetch ⟨request.table, node.name, node.columns, [], request.filter⟩
  /-- No rows are asked for twice. -/
  distinct : (asked.map (·.name)).Nodup
  rows : match source.conduct (.count request.table request.filter),
      source.count request.table request.filter with
    | .silent, _ => asked = [] ∧ execution.answer = unanswered limits
    | _, .error e => asked = [] ∧ execution.answer = some (.error e)
    | .cancelling, .ok _ => asked = [] ∧
        ((∃ node ∈ request.nodes, ¬ node.isPipeline) → execution.answer = some (.error .cancelled))
    | .prompt, .ok _ => Reaches source limits request 0
        (request.nodes.filter fun node => !node.isPipeline) asked execution.answer

/-- What is asked for after the rows have been counted. -/
theorem reaches_of_run [Memory] (source : Source) (limits : Limits) (request : Request) (count : Nat) :
    ∃ asked, (run source limits request false count).2.1 = asked.map (scopeOf request) ∧
      Reaches source limits request 0 (request.nodes.filter fun node => !node.isPipeline) asked
        (run source limits request false count).1 := by
  obtain ⟨asked, scopes, reaches⟩ := reaches_of_buildFrom source limits request
    (request.nodes.filter fun node => !node.isPipeline) 0
  refine ⟨asked, ?_⟩
  rw [run, if_neg (by simp)]
  generalize buildFrom source limits request 0 _ = outcome at scopes reaches ⊢
  obtain ⟨answer, asked', fetched⟩ := outcome
  cases answer with
  | none =>
      refine ⟨scopes, reaches.imp (fun e answered => by cases answered) fun value answered => ?_⟩
      dsimp only at answered
      unfold unanswered at answered
      split at answered <;> cases answered
  | some built =>
      refine ⟨scopes, reaches.imp (fun e answered => ?_) fun value answered => ?_⟩
      · cases answered
        rfl
      · obtain ⟨entries, rfl, -⟩ := bind_eq_ok.mp (Option.some.inj answered)
        exact ⟨entries, rfl⟩

/-- Nothing more is asked about a request that is cancelled while its rows are counted. -/
theorem run_cancelled [Memory] (source : Source) (limits : Limits) (request : Request) (count : Nat) :
    (run source limits request true count).2.1 = [] ∧
      ((∃ node ∈ request.nodes, ¬ node.isPipeline) →
        (run source limits request true count).1 = some (.error .cancelled)) := by
  rw [run]
  cases plain : request.nodes.filter fun node => !node.isPipeline with
  | nil =>
      refine ⟨rfl, ?_⟩
      rintro ⟨node, member, is⟩
      have kept : node ∈ request.nodes.filter fun node => !node.isPipeline :=
        List.mem_filter.mpr ⟨member, by simpa using is⟩
      rw [plain] at kept
      cases kept
  | cons node nodes => exact ⟨rfl, fun _ => rfl⟩

/-- Nodes that are asked for in turn are known by their names. -/
theorem Reaches.distinct {α : Type} {answer : Option (Except Error α)} {start : Nat}
    {asked : List Node} (valid : Forest.validate request.nodes = .ok ())
    (reaches : Reaches source limits request start
      (request.nodes.filter fun node => !node.isPipeline) asked answer) :
    (asked.map (·.name)).Nodup :=
  (Forest.names_of_validate valid).sublist
    ((reaches.first.sublist.trans List.filter_sublist).map _)

/-- What is asked about a valid request. -/
theorem asks_of_accepted [Memory] (valid : Forest.validate request.nodes = .ok ()) :
    ∃ asked, Asks source limits request (execute source limits request false) asked := by
  unfold execute
  rw [if_neg (by decide), valid]
  dsimp only
  cases manner : source.conduct (.count request.table request.filter) with
  | silent => exact ⟨[], rfl, .nil, by simp [manner]⟩
  | cancelling =>
      cases counted : source.count request.table request.filter with
      | error e => exact ⟨[], rfl, .nil, by simp [manner, counted]⟩
      | ok count =>
          obtain ⟨none, ends⟩ := run_cancelled source limits request count
          refine ⟨[], ?_, .nil, ?_⟩
          · simp [none]
          · simpa [manner, counted] using ends
  | prompt =>
      cases counted : source.count request.table request.filter with
      | error e => exact ⟨[], rfl, .nil, by simp [manner, counted]⟩
      | ok count =>
          obtain ⟨asked, scopes, reaches⟩ := reaches_of_run source limits request count
          refine ⟨asked, ?_, reaches.distinct valid, ?_⟩
          · simp [scopes, scopeOf, Function.comp_def]
          · simpa [manner, counted] using reaches

/-- A source is asked nothing about a request that is cancelled or refused beforehand. It is asked once
for the count otherwise, and then, in their order, for the rows of the nodes that are not pipelines: for
all of them if there is an answer, for no other one after a cancellation, and for no other one after a
failure where every node before it is built. -/
theorem calls_in_order [Memory] (source : Source) (limits : Limits) (request : Request)
    (cancelled : Bool) :
    let execution := execute source limits request cancelled
    match cancelled, Forest.validate request.nodes with
    | true, _ => execution.calls = [] ∧ execution.answer = some (.error .cancelled)
    | false, .error e => execution.calls = [] ∧ execution.answer = some (.error e)
    | false, .ok () => ∃ asked, Asks source limits request execution asked := by
  intro execution
  cases cancelled with
  | true => exact ⟨rfl, rfl⟩
  | false =>
      cases valid : Forest.validate request.nodes with
      | error e => simp [execution, execute, valid]
      | ok => exact asks_of_accepted valid

/-! ## A cancellation while the second of three columns is fetched -/

def columnTerms (column : String) : Node :=
  ⟨column, "terms", .bucketing, some column, [], []⟩

def givesUp : Source where
  count _ _ := .ok 2
  fetch scope := .ok [scope.columns.map (·, .string "fr")]
  conduct
    | .count _ _ => .prompt
    | .fetch scope => if scope.aggregation = "city" then .cancelling else .prompt

example :
    let execution :=
      execute givesUp {} ⟨"visits", none, ["country", "city", "street"].map columnTerms⟩ false
    execution.calls.length = 3 ∧ execution.fetched = [1, 1] ∧
      execution.answer = some (.error .cancelled) := by
  refine ⟨?_, ?_, ?_⟩ <;> cbv

end Rollup.Engine
