import Rollup.Proofs.Aggregation.Walk

/-! # Dependencies descend

What a pipeline reads is a sibling, and a pipeline that is read stands further in front. So whoever
follows paths comes to a node that depends on nothing, while a level is checked as well as in a
level that is accepted, and everything is resolved before it is read.
-/

namespace Rollup

namespace Forest

/-- The levels of a forest, each with the names of the nodes above it, the nearest first. -/
inductive LevelAt (forest : List Node) : List String → List Node → Prop where
  | top : LevelAt forest [] forest
  | children {ancestors : List String} {nodes : List Node} {node : Node} :
      LevelAt forest ancestors nodes → node ∈ nodes →
      LevelAt forest (node.name :: ancestors) node.children

theorem valid_of_levelAt {forest nodes : List Node} {ancestors : List String}
    (valid : validate forest = .ok ()) (level : LevelAt forest ancestors nodes) :
    validate nodes = .ok () := by
  induction level with
  | top => exact valid
  | children _ member ih => exact below_of_validate ih _ member

/-- Following paths from pipeline to pipeline: the pipelines on the way, and the node at its end. -/
inductive Trail (nodes : List Node) : Node → List Node → Node → Prop where
  | stop {node : Node} : ¬ node.isPipeline → Trail nodes node [] node
  | step {node target last : Node} {path : BucketsPath} {passed : List Node} :
      node.isPipeline → Reads nodes node target path → Trail nodes target passed last →
      Trail nodes node (node :: passed) last

/-- Where paths lead from a node: past pipelines that stand ever further in front, to a node of the
level that is none. -/
structure LeadsDown (nodes : List Node) (node : Node) (passed : List Node) (last : Node) :
    Prop where
  trail : Trail nodes node passed last
  front : ∀ other ∈ passed, position nodes other ≤ position nodes node
  falls : (passed.map (position nodes)).Pairwise (· > ·)
  member : last ∈ nodes
  ends : last.kind = .bucketing ∨ last.kind = .metric

theorem leadsDown_self {nodes : List Node} {node : Node} (member : node ∈ nodes)
    (plain : ¬ node.isPipeline) : LeadsDown nodes node [] node where
  trail := .stop plain
  front := nofun
  falls := .nil
  member := member
  ends := by
    cases is : node.kind with
    | bucketing => exact .inl rfl
    | metric => exact .inr rfl
    | pipeline => simp [Node.isPipeline, is] at plain

theorem LeadsDown.step {nodes passed : List Node} {node target last : Node} {path : BucketsPath}
    (down : LeadsDown nodes target passed last) (is : node.isPipeline)
    (reads : Reads nodes node target path)
    (lower : target.isPipeline → position nodes target < position nodes node) :
    LeadsDown nodes node (node :: passed) last := by
  have front : ∀ other ∈ passed, position nodes other < position nodes node := by
    intro other hother
    have further : target.isPipeline := by
      cases down.trail with
      | stop _ => cases hother
      | step is _ _ => exact is
    exact (down.front other hother).trans_lt (lower further)
  refine ⟨.step is reads down.trail, ?_, ?_, down.member, down.ends⟩
  · exact List.forall_mem_cons.mpr ⟨le_rfl, fun other hother => (front other hother).le⟩
  · rw [List.map_cons]
    exact List.pairwise_cons.mpr ⟨List.forall_mem_map.mpr front, down.falls⟩

section Accepted

variable {nodes before after : List Node} {node target last : Node} {path : BucketsPath}
  {passed : List Node} (valid : validate nodes = .ok ())

include valid

theorem Trail.unique (trail : Trail nodes node passed last) {passed' : List Node} {last' : Node}
    (trail' : Trail nodes node passed' last') : passed' = passed ∧ last' = last := by
  induction trail generalizing passed' last' with
  | stop plain =>
      cases trail' with
      | stop _ => exact ⟨rfl, rfl⟩
      | step is _ _ => exact absurd is plain
  | step is reads _ ih =>
      cases trail' with
      | stop plain => exact absurd is plain
      | step _ reads' rest =>
          obtain ⟨rfl, -⟩ := reads_unique valid reads reads'
          obtain ⟨rfl, rfl⟩ := ih rest
          exact ⟨rfl, rfl⟩

theorem position_lt_of_declared (declared : DeclaredBefore nodes target node) :
    position nodes target < position nodes node := by
  obtain ⟨before, after, split, early⟩ := declared
  rw [position_of_split (names_of_validate valid) split]
  exact position_lt_of_mem split early

theorem exists_leadsDown (member : node ∈ nodes) :
    ∃ passed last, LeadsDown nodes node passed last := by
  induction place : position nodes node using Nat.strong_induction_on generalizing node with
  | _ place ih =>
      subst place
      by_cases is : node.isPipeline
      · obtain ⟨target, path, promised⟩ := promised_of_validate valid member is
        have lower (further : target.isPipeline) : position nodes target < position nodes node :=
          position_lt_of_declared valid (promised.declared further)
        obtain ⟨passed, last, down⟩ : ∃ passed last, LeadsDown nodes target passed last := by
          by_cases further : target.isPipeline
          · exact ih _ (lower further) promised.reads.member rfl
          · exact ⟨[], target, leadsDown_self promised.reads.member further⟩
        exact ⟨node :: passed, last, down.step is promised.reads lower⟩
      · exact ⟨[], node, leadsDown_self member is⟩

end Accepted

/-! ## Resolving in order -/

section Resolving

variable [Memory] {nodes before after : List Node} {node target : Node} {path : BucketsPath}
  {built results : Entries Result}

/-- What has a result keeps one. -/
theorem isSome_of_resolvePipelines (resolved : resolvePipelines nodes built = .ok results)
    {name : String} (known : (built.lookup name).isSome) : (results.lookup name).isSome := by
  refine foldlM_invariant (P := fun r => (r.lookup name).isSome) ?_ known resolved
  intro node _ r r' known step
  rcases resolvePipeline_eq_ok step with rfl | ⟨result, -, rfl⟩
  · exact known
  · rw [Entries.lookup_set]
    split
    · rfl
    · exact known

variable (valid : validate nodes = .ok ())

include valid

/-- A pipeline that is passed has a result. -/
theorem isSome_of_passed (split : nodes = before ++ after) (early : node ∈ before)
    (is : node.isPipeline) (resolved : resolvePipelines before built = .ok results) :
    (results.lookup node.name).isSome := by
  have member : node ∈ nodes := split ▸ List.mem_append_left _ early
  obtain ⟨pipeline, checked⟩ := pipeline_of_validate valid member is
  obtain ⟨target, path, promised⟩ := promised_of_validate valid member is
  obtain ⟨first, rest, rfl⟩ := List.append_of_mem early
  unfold resolvePipelines at resolved
  rw [List.filter_append, List.filter_cons_of_pos is, List.foldlM_append] at resolved
  obtain ⟨others, -, resolved⟩ := bind_eq_ok.mp resolved
  rw [List.foldlM_cons, resolvePipeline_eq checked.named promised.reads.asked] at resolved
  obtain ⟨own, step, resolved⟩ := bind_eq_ok.mp resolved
  obtain ⟨input, -, step⟩ := bind_eq_ok.mp step
  obtain ⟨result, -, ⟨⟩⟩ := bind_eq_ok.mp step
  refine isSome_of_resolvePipelines resolved ?_
  rw [Entries.lookup_set, if_pos rfl]
  rfl

/-- What a pipeline reads has its result when the pipelines before it are resolved. -/
theorem isSome_of_reads (split : nodes = before ++ node :: after) (is : node.isPipeline)
    (reads : Reads nodes node target path)
    (known : ∀ other ∈ nodes, ¬ other.isPipeline → (built.lookup other.name).isSome)
    (resolved : resolvePipelines before built = .ok results) :
    (results.lookup target.name).isSome := by
  have member : node ∈ nodes := by simp [split]
  by_cases further : target.isPipeline
  · obtain ⟨target, path, promised⟩ := promised_of_validate valid member is
    obtain ⟨rfl, rfl⟩ := reads_unique valid reads promised.reads
    obtain ⟨before', after', split', early⟩ := promised.declared further
    rw [before_unique valid split split'] at early
    exact isSome_of_passed valid split early further resolved
  · exact isSome_of_resolvePipelines resolved (known target reads.member further)

end Resolving

/-! ## Every level -/

/-- What holds of a pipeline of an accepted level. It reads one other node of the level, further in
front if that is a pipeline; following paths comes to an end; and what it reads is resolved before
it. -/
structure Grounded [Memory] (nodes : List Node) (node : Node) : Prop where
  reads : ∃ target path, Reads nodes node target path ∧ target.name ≠ node.name ∧
    (∀ other ∈ nodes, other.name = path.sibling → other = target) ∧
    (target.isPipeline → position nodes target < position nodes node)
  leads : ∃ passed last, LeadsDown nodes node passed last ∧
    ∀ passed' last', Trail nodes node passed' last' → passed' = passed ∧ last' = last
  resolved : ∀ before after target path limits rows built results,
    nodes = before ++ node :: after → Reads nodes node target path →
    evaluateAll limits rows nodes = .ok built → resolvePipelines before built = .ok results →
    ∃ result, results.lookup path.sibling = some result

theorem grounded_of_validate [Memory] {nodes : List Node} {node : Node}
    (valid : validate nodes = .ok ())
    (member : node ∈ nodes) (is : node.isPipeline) : Grounded nodes node where
  reads := by
    obtain ⟨target, path, promised⟩ := promised_of_validate valid member is
    refine ⟨target, path, promised.reads, promised.apart, fun other hother same => ?_, ?_⟩
    · exact eq_of_name valid hother promised.reads.member (same.trans promised.reads.name.symm)
    · exact fun further => position_lt_of_declared valid (promised.declared further)
  leads := by
    obtain ⟨passed, last, down⟩ := exists_leadsDown valid member
    exact ⟨passed, last, down, fun _ _ trail => down.trail.unique valid trail⟩
  resolved before after target path limits rows built results split reads evaluated resolved := by
    have known (other : Node) (hother : other ∈ nodes) (plain : ¬ other.isPipeline) :
        (built.lookup other.name).isSome := by
      obtain ⟨result, found, -⟩ :=
        lookup_evaluateAll (names_of_validate valid) evaluated hother plain
      exact Option.isSome_of_eq_some found
    rw [← reads.name]
    exact Option.isSome_iff_exists.mp (isSome_of_reads valid split is reads known resolved)

/-- What holds whenever the check of a level comes to a pipeline, whatever the level is. The walk
from each sibling that the check may ask about comes to an answer, past pipelines that stand ever
further in front of the pipeline; nothing else is asked about; and the check goes on by these
answers. -/
structure Settled [Memory] (ancestors : List String) (nodes before : List Node) (node : Node)
    (after : List Node) (known : List String) : Prop where
  ends : ∀ target, Askable nodes before target → ∃ entered,
    Walk nodes target entered (decide (target.name ∈ known)) ∧ Descends nodes (node :: entered)
  asks : ∀ known', (∀ target, Askable nodes before target →
      (target.name ∈ known ↔ target.name ∈ known')) →
    validateDependency nodes ancestors before.reverse known node =
      validateDependency nodes ancestors before.reverse known' node
  goes : validateLevel ancestors nodes =
    validatePipelines nodes ancestors before.reverse known (node :: after)

theorem settled_of_reached [Memory] {ancestors : List String} {nodes before after : List Node}
    {node : Node}
    (reached : Reached nodes ancestors before node after) (is : node.isPipeline) :
    Settled ancestors nodes before node after
      (before.foldl addSequence (bucketingNames nodes)) := by
  have distinct := (validateNodes_eq_ok.mp reached.alone).1
  refine ⟨fun target askable => ?_, fun known' same => ?_, validateLevel_of_reached reached⟩
  · obtain ⟨entered, walk, inside, descends⟩ := (walked_of_reached reached).ends target askable
    exact ⟨entered, walk, descends_cons distinct reached.split is inside descends⟩
  · exact validateDependency_congr distinct
      (reached.split ▸ List.subset_append_left _ _) same

/-- Pipeline dependencies are well-founded at every level of every forest: while the level is
checked, and once the forest is accepted. -/
theorem dependencies_descend [Memory] (forest : List Node) :
    (∀ ancestors nodes, LevelAt forest ancestors nodes → ∀ before node after,
      Reached nodes ancestors before node after → node.isPipeline →
      Settled ancestors nodes before node after
        (before.foldl addSequence (bucketingNames nodes))) ∧
    (validate forest = .ok () → ∀ ancestors nodes, LevelAt forest ancestors nodes →
      ∀ node ∈ nodes, node.isPipeline → Grounded nodes node) :=
  ⟨fun _ _ _ _ _ _ reached is => settled_of_reached reached is,
    fun valid _ _ level _ member is =>
      grounded_of_validate (valid_of_levelAt valid level) member is⟩

/-- Sales by month. -/
def months : Node :=
  ⟨"months", "date_histogram", .bucketing, some "at", [("calendar_interval", .string "month")],
    [⟨"sales", "sum", .metric, some "price", [], []⟩]⟩

/-- Sales up to a month. -/
def running : Node :=
  ⟨"running", "cumulative_sum", .pipeline, none, [("buckets_path", .string "months>sales")], []⟩

/-- What a month adds, read off the pipeline before. -/
def change : Node :=
  ⟨"change", "derivative", .pipeline, none, [("buckets_path", .string "running")], []⟩

def growth : List Node := [months, running, change]

theorem dependencies_descend_growth :
    validate growth = .ok () ∧ Reached growth [] [months, running] change [] ∧
      Settled [] growth [months, running] change [] ["running", "months"] ∧
      Grounded growth change := by
  have accepted : validate growth = .ok () := by decide +kernel
  have reached : Reached growth [] [months, running] change [] :=
    ⟨rfl, by decide +kernel, by decide +kernel⟩
  have known : [months, running].foldl addSequence (bucketingNames growth) =
      ["running", "months"] := by decide +kernel
  obtain ⟨settled, grounded⟩ := dependencies_descend growth
  refine ⟨accepted, reached, ?_, grounded accepted _ _ .top change (by simp [growth]) rfl⟩
  rw [← known]
  exact settled _ _ .top _ _ _ reached rfl

end Forest

end Rollup
