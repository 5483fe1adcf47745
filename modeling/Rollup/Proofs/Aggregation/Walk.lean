import Rollup.Proofs.Aggregation.Forms

/-! # Walks along paths

Whether a sibling yields one value for each bucket can be found by following paths, from one
parallel pipeline to the next. Nothing in a forest bounds such a walk: pipelines may lead to each
other and back. The check of a level asks only about siblings whose own paths it has accepted, so
that a walk goes from a pipeline to one that is declared before it. The list of names that the check
keeps instead has the answers of the walks.
-/

namespace Rollup

namespace Forest

/-! ## Positions -/

/-- Where a node stands among its siblings. -/
def position (nodes : List Node) (node : Node) : Nat := nodes.findIdx (·.name = node.name)

section Position

variable {nodes before after : List Node} {node : Node}

theorem position_lt_of_mem (split : nodes = before ++ after) (member : node ∈ before) :
    position nodes node < before.length := by
  have found : before.findIdx (·.name = node.name) < before.length :=
    List.findIdx_lt_length_of_exists ⟨node, member, by simp⟩
  rw [split, position, List.findIdx_append, if_pos found]
  exact found

theorem position_of_split (distinct : (nodes.map (·.name)).Nodup)
    (split : nodes = before ++ node :: after) : position nodes node = before.length := by
  have missing : ¬ before.findIdx (·.name = node.name) < before.length := by
    rw [List.findIdx_lt_length]
    rintro ⟨other, early, same⟩
    rw [split, List.map_append, List.map_cons, List.nodup_append] at distinct
    exact distinct.2.2 _ (List.mem_map_of_mem early) _ List.mem_cons_self (by simpa using same)
  rw [split, position, List.findIdx_append, if_neg missing, List.findIdx_cons]
  simp

end Position

/-! ## Walks -/

/-- Whether a node yields one value for each bucket, as far as the node itself tells, or else the
sibling that decides it. -/
def yieldsOrNext (nodes : List Node) (node : Node) : Bool ⊕ Node :=
  match node.kind with
  | .bucketing => .inl true
  | .metric => .inl false
  | .pipeline => match Method.ofName? node.typeName with
      | some (.pipeline pipeline) =>
          if pipeline.isParallel then match BucketsPath.ofNode node with
            | .ok ⟨sibling, .itself _⟩ =>
                (nodes.find? fun s => s.name = sibling ∧ s.name ≠ node.name).elim (.inl false) .inr
            | .ok _ => .inl true
            | .error _ => .inl false
          else .inl false
      | _ => .inl false

/-- A walk from a node that comes to an answer, and the nodes that it enters. -/
inductive Walk (nodes : List Node) : Node → List Node → Bool → Prop where
  | stop {node : Node} {answer : Bool} :
      yieldsOrNext nodes node = .inl answer → Walk nodes node [node] answer
  | onward {node next : Node} {entered : List Node} {answer : Bool} :
      yieldsOrNext nodes node = .inr next → Walk nodes next entered answer →
      Walk nodes node (node :: entered) answer

namespace Walk

variable {nodes entered entered' : List Node} {node : Node} {answer answer' : Bool}

/-- There is one way to go. -/
theorem unique (walk : Walk nodes node entered answer) (walk' : Walk nodes node entered' answer') :
    entered' = entered ∧ answer' = answer := by
  induction walk generalizing entered' answer' with
  | stop known =>
      cases walk' with
      | stop known' =>
          cases known.symm.trans known'
          exact ⟨rfl, rfl⟩
      | onward further _ => cases known.symm.trans further
  | onward further _ ih =>
      cases walk' with
      | stop known => cases further.symm.trans known
      | onward further' rest =>
          cases further.symm.trans further'
          obtain ⟨rfl, rfl⟩ := ih rest
          exact ⟨rfl, rfl⟩

/-- From each node that is entered the walk goes on as from the node itself. -/
theorem from_entered (walk : Walk nodes node entered answer) {other : Node}
    (member : other ∈ entered) :
    ∃ rest, Walk nodes other rest answer ∧ rest.length ≤ entered.length := by
  induction walk with
  | @stop node _ known =>
      obtain rfl := List.mem_singleton.mp member
      exact ⟨_, .stop known, le_rfl⟩
  | onward further rest ih =>
      rcases List.mem_cons.mp member with rfl | member
      · exact ⟨_, .onward further rest, le_rfl⟩
      · obtain ⟨entered, walk, short⟩ := ih member
        exact ⟨entered, walk, short.trans (Nat.le_succ _)⟩

/-- A walk that comes back to where it has been never ends. -/
theorem nodup (walk : Walk nodes node entered answer) : entered.Nodup := by
  induction walk with
  | stop known => exact List.nodup_singleton _
  | onward further rest ih =>
      refine List.nodup_cons.mpr ⟨fun again => ?_, ih⟩
      obtain ⟨entered, walk, short⟩ := rest.from_entered again
      obtain ⟨rfl, -⟩ := walk.unique (.onward further rest)
      simp at short

end Walk

/-! ## The check of a level, pipeline by pipeline -/

/-- Names of the nodes that have buckets. -/
def bucketingNames (nodes : List Node) : List String :=
  (nodes.filter (·.kind = .bucketing)).map (·.name)

/-- The names that are known once a node is passed. -/
def addSequence (known : List String) (node : Node) : List String :=
  if node.isPipeline ∧ yieldsSequence known node then node.name :: known else known

theorem mem_addSequence {known : List String} {node : Node} {name : String} :
    name ∈ addSequence known node ↔
      name ∈ known ∨ name = node.name ∧ node.isPipeline ∧ yieldsSequence known node := by
  unfold addSequence
  split_ifs with adds
  · simp [adds, or_comm]
  · simp [adds]

/-- The check of one node among those of its level: only pipelines read anything. -/
def validateReading (nodes : List Node) (ancestors : List String) (earlier : List Node)
    (known : List String) (node : Node) : Except Error Unit :=
  if node.isPipeline then validateDependency nodes ancestors earlier known node else .ok ()

theorem validatePipelines_cons {nodes earlier rest : List Node} {ancestors known : List String}
    (node : Node) :
    validatePipelines nodes ancestors earlier known (node :: rest) = (do
      validateReading nodes ancestors earlier known node
      validatePipelines nodes ancestors (node :: earlier) (addSequence known node) rest) := by
  rw [validatePipelines, validateReading, addSequence]
  by_cases is : node.isPipeline
  · simp only [is, if_true, true_and]
  · simp only [is]
    rfl

theorem validatePipelines_append {nodes before after earlier : List Node}
    {ancestors known : List String} :
    validatePipelines nodes ancestors earlier known (before ++ after) = (do
      validatePipelines nodes ancestors earlier known before
      validatePipelines nodes ancestors (before.reverse ++ earlier) (before.foldl addSequence known)
        after) := by
  induction before generalizing earlier known with
  | nil => rfl
  | cons node before ih =>
      rw [List.cons_append, validatePipelines_cons, validatePipelines_cons, bind_assoc]
      simp only [ih, List.reverse_cons, List.append_assoc, List.singleton_append, List.foldl_cons]

/-- The check of a level comes to a node: all nodes are sound by themselves, and what the pipelines
before it read is accepted. -/
structure Reached (nodes : List Node) (ancestors : List String) (before : List Node) (node : Node)
    (after : List Node) : Prop where
  split : nodes = before ++ node :: after
  alone : validateNodes [] nodes = .ok ()
  accepted : validatePipelines nodes ancestors [] (bucketingNames nodes) before = .ok ()

/-- Siblings that a node may ask about while a level is checked: those that are no pipelines, and
pipelines before it. -/
def Askable (nodes before : List Node) (target : Node) : Prop :=
  target ∈ nodes ∧ (target.isPipeline → target ∈ before)

/-- The pipelines among some nodes come from ever further in front. -/
def Descends (nodes entered : List Node) : Prop :=
  ((entered.filter Node.isPipeline).map (position nodes)).Pairwise (· > ·)

/-- The walk from a node comes to an answer. The pipelines that it enters are among some, and come
from ever further in front. -/
def Ends (nodes within : List Node) (node : Node) (answer : Bool) : Prop :=
  ∃ entered, Walk nodes node entered answer ∧ entered.filter Node.isPipeline ⊆ within ∧
    Descends nodes entered

theorem ends_of_stop {nodes within : List Node} {node : Node} {answer : Bool}
    (known : yieldsOrNext nodes node = .inl answer) (inside : node.isPipeline → node ∈ within) :
    Ends nodes within node answer := by
  refine ⟨[node], .stop known, ?_⟩
  by_cases is : node.isPipeline
  · rw [Descends, List.filter_cons_of_pos is]
    exact ⟨List.cons_subset.mpr ⟨inside is, List.nil_subset _⟩, List.pairwise_singleton _ _⟩
  · rw [Descends, List.filter_cons_of_neg is]
    exact ⟨List.nil_subset _, .nil⟩

theorem Ends.mono {nodes within more : List Node} {node : Node} {answer : Bool}
    (ends : Ends nodes within node answer) (sub : within ⊆ more) : Ends nodes more node answer := by
  obtain ⟨entered, walk, inside, descends⟩ := ends
  exact ⟨entered, walk, List.Subset.trans inside sub, descends⟩

/-- The walk from each sibling that may be asked about ends, and its answer is what is known by
name. -/
structure Walked (nodes before : List Node) (known : List String) : Prop where
  ends : ∀ target, Askable nodes before target →
    Ends nodes before target (decide (target.name ∈ known))
  known : ∀ name ∈ known, ∃ other, Askable nodes before other ∧ other.name = name

section Run

variable {nodes before after : List Node} {ancestors known : List String} {node : Node}

/-- What is left of the check of a level once it comes to a node. -/
theorem validateLevel_of_reached (reached : Reached nodes ancestors before node after) :
    validateLevel ancestors nodes = validatePipelines nodes ancestors before.reverse
      (before.foldl addSequence (bucketingNames nodes)) (node :: after) := by
  have split : validatePipelines nodes ancestors [] (bucketingNames nodes) nodes =
      validatePipelines nodes ancestors [] (bucketingNames nodes) (before ++ node :: after) := by
    rw [← reached.split]
  rw [validateLevel, reached.alone]
  refine split.trans ?_
  rw [validatePipelines_append, reached.accepted, List.append_nil]
  rfl

/-- The check of a pipeline asks about no other siblings. -/
theorem validateDependency_congr {known' : List String} (distinct : (nodes.map (·.name)).Nodup)
    (early : before ⊆ nodes)
    (same : ∀ target, Askable nodes before target → (target.name ∈ known ↔ target.name ∈ known')) :
    validateDependency nodes ancestors before.reverse known node =
      validateDependency nodes ancestors before.reverse known' node := by
  unfold validateDependency
  refine bind_congr fun path => ?_
  by_cases itself : path.sibling = node.name
  · rw [if_pos itself, if_pos itself]
  rw [if_neg itself, if_neg itself]
  cases found : nodes.find? (·.name = path.sibling) with
  | none => rfl
  | some target =>
      have member := List.mem_of_find?_eq_some found
      have askable (declared : ¬ (target.kind = .pipeline ∧
          ¬ before.reverse.any (·.name = target.name))) : Askable nodes before target := by
        refine ⟨member, fun pipes => ?_⟩
        by_contra late
        refine declared ⟨by simpa [Node.isPipeline] using pipes, fun named => late ?_⟩
        obtain ⟨other, first, named⟩ : ∃ other ∈ before, other.name = target.name := by
          simpa using named
        rwa [← List.inj_on_of_nodup_map distinct (early first) member named]
      dsimp only
      split
      case h_7 =>
        by_cases later : target.kind = .pipeline ∧ ¬ before.reverse.any (·.name = target.name)
        · rw [if_pos later, if_pos later]
        · simp only [same target (askable later)]
      all_goals rfl

variable (distinct : (nodes.map (·.name)).Nodup)

include distinct

/-- A sibling is found by its name, also where the node itself is left out. -/
theorem find?_of_name {target : Node} {name : String} (member : target ∈ nodes)
    (named : target.name = name) (apart : target.name ≠ node.name) :
    nodes.find? (fun s => s.name = name ∧ s.name ≠ node.name) = some target := by
  obtain ⟨other, found⟩ : ∃ other, nodes.find? (fun s => s.name = name ∧ s.name ≠ node.name) =
      some other := by
    refine Option.isSome_iff_exists.mp (List.find?_isSome.mpr ⟨target, member, ?_⟩)
    simp only [named.symm, apart, ne_eq, not_false_eq_true, and_self, decide_true]
  have same : other.name = name := by
    have := List.find?_some found
    simp only [decide_eq_true_eq] at this
    exact this.1
  rw [found, List.inj_on_of_nodup_map distinct (List.mem_of_find?_eq_some found) member
    (same.trans named.symm)]

/-- Before any pipeline is checked, the names of bucketing nodes are known. -/
theorem walked_nil : Walked nodes [] (bucketingNames nodes) where
  ends target askable := by
    obtain ⟨member, plain⟩ := askable
    have known : target.name ∈ bucketingNames nodes ↔ target.kind = .bucketing := by
      constructor
      · intro known
        obtain ⟨other, hother, named⟩ := List.mem_map.mp known
        obtain ⟨hother, is⟩ := List.mem_filter.mp hother
        rw [← List.inj_on_of_nodup_map distinct hother member named]
        simpa using is
      · intro is
        exact List.mem_map_of_mem (List.mem_filter.mpr ⟨member, by simpa using is⟩)
    refine ends_of_stop ?_ plain
    cases is : target.kind with
    | bucketing => simp [yieldsOrNext, known, is]
    | metric => simp [yieldsOrNext, known, is]
    | pipeline => cases plain (by simp [Node.isPipeline, is])
  known name known := by
    obtain ⟨other, hother, named⟩ := List.mem_map.mp known
    obtain ⟨hother, is⟩ := List.mem_filter.mp hother
    have bucketing : other.kind = .bucketing := by simpa using is
    exact ⟨other, ⟨hother, fun pipes => by simp [Node.isPipeline, bucketing] at pipes⟩, named⟩

variable (split : nodes = before ++ node :: after)

include split

/-- Pipelines before a node come from further in front than the node. -/
theorem descends_cons (is : node.isPipeline) {entered : List Node}
    (inside : entered.filter Node.isPipeline ⊆ before) (descends : Descends nodes entered) :
    Descends nodes (node :: entered) := by
  rw [Descends, List.filter_cons_of_pos is, List.map_cons]
  refine List.pairwise_cons.mpr ⟨fun place member => ?_, descends⟩
  obtain ⟨other, early, rfl⟩ := List.mem_map.mp member
  rw [position_of_split distinct split]
  exact position_lt_of_mem split (inside early)

variable (walked : Walked nodes before known)

include walked

/-- The walk from a pipeline whose path is accepted. -/
theorem ends_of_accepted (is : node.isPipeline)
    (accepted : validateDependency nodes ancestors before.reverse known node = .ok ()) :
    Ends nodes (before ++ [node]) node (yieldsSequence known node) := by
  obtain ⟨target, path, reads, apart, allowed⟩ := allowed_of_validateDependency accepted
  have kind : node.kind = .pipeline := by simpa [Node.isPipeline] using is
  have own : node ∈ before ++ [node] := List.mem_append_right _ (List.mem_singleton_self _)
  by_cases parallel : node.IsParallel
  · obtain ⟨pipeline, named, several⟩ := parallel
    obtain ⟨sibling, asks⟩ := path
    cases asks with
    | count =>
        refine ends_of_stop ?_ fun _ => own
        simp [yieldsOrNext, yieldsSequence, kind, named, several, reads.asked]
    | metric inner =>
        refine ends_of_stop ?_ fun _ => own
        simp [yieldsOrNext, yieldsSequence, kind, named, several, reads.asked]
    | itself property =>
        have askable : Askable nodes before target := by
          refine ⟨reads.member, fun pipes => ?_⟩
          obtain ⟨other, first, same⟩ := allowed.declared pipes
          rw [List.mem_reverse] at first
          have member : other ∈ nodes := split ▸ List.mem_append_left _ first
          rwa [← List.inj_on_of_nodup_map distinct member reads.member same]
        have next : yieldsOrNext nodes node = .inr target := by
          have found := find?_of_name distinct reads.member reads.name apart
          simp only [yieldsOrNext, kind, named, several, reads.asked, if_true, found,
            Option.elim_some]
        have same : yieldsSequence known node = decide (target.name ∈ known) := by
          simp [yieldsSequence, named, several, reads.asked, reads.name]
        obtain ⟨entered, walk, inside, descends⟩ := walked.ends target askable
        refine ⟨node :: entered, same ▸ .onward next walk, ?_, ?_⟩
        · rw [List.filter_cons_of_pos is]
          exact List.cons_subset.mpr
            ⟨own, List.Subset.trans inside (List.subset_append_left _ _)⟩
        · exact descends_cons distinct split is inside descends
  · have reduces (pipeline : Pipeline)
        (named : Method.ofName? node.typeName = some (.pipeline pipeline)) :
        pipeline.isParallel = false :=
      Bool.eq_false_of_not_eq_true fun several => parallel ⟨pipeline, named, several⟩
    have single : yieldsSequence known node = false := by
      rw [yieldsSequence]
      split
      · next pipeline named => rw [reduces pipeline named, Bool.false_and]
      · rfl
    refine ends_of_stop ?_ fun _ => own
    rw [single, yieldsOrNext, kind]
    dsimp only
    split
    · next pipeline named => simp [reduces pipeline named]
    · rfl

/-- Passing a node of the level extends the walks by its own. -/
theorem walked_step
    (accepted : validateReading nodes ancestors before.reverse known node = .ok ()) :
    Walked nodes (before ++ [node]) (addSequence known node) := by
  have member : node ∈ nodes := by simp [split]
  have late : node ∉ before := fun early =>
    (position_lt_of_mem split early).ne (position_of_split distinct split)
  have named {other : Node} (hother : other ∈ nodes) (same : other.name = node.name) :
      other = node :=
    List.inj_on_of_nodup_map distinct hother member same
  have later {other : Node} (askable : Askable nodes before other) :
      Askable nodes (before ++ [node]) other :=
    ⟨askable.1, fun pipes => List.mem_append_left _ (askable.2 pipes)⟩
  refine ⟨fun target askable => ?_, fun name known' => ?_⟩
  · by_cases own : target = node ∧ node.isPipeline
    · obtain ⟨rfl, is⟩ := own
      rw [validateReading, if_pos is] at accepted
      -- No pipeline is known under its name before it is passed.
      have unknown : target.name ∉ known := fun known => by
        obtain ⟨other, askable, same⟩ := walked.known _ known
        exact late (named askable.1 same ▸ askable.2 (named askable.1 same ▸ is))
      have same :
          decide (target.name ∈ addSequence known target) = yieldsSequence known target := by
        simp [mem_addSequence, unknown, is]
      rw [same]
      exact ends_of_accepted distinct split walked is accepted
    · have askable' : Askable nodes before target := by
        refine ⟨askable.1, fun pipes => ?_⟩
        rcases List.mem_append.mp (askable.2 pipes) with early | same
        · exact early
        · obtain rfl := List.mem_singleton.mp same
          exact absurd ⟨rfl, pipes⟩ own
      have same : target.name ∈ addSequence known node ↔ target.name ∈ known := by
        rw [mem_addSequence, or_iff_left]
        rintro ⟨same, is, -⟩
        exact own ⟨named askable.1 same, is⟩
      simp only [same]
      exact (walked.ends target askable').mono (List.subset_append_left _ _)
  · rcases mem_addSequence.mp known' with known' | ⟨rfl, -, -⟩
    · obtain ⟨other, askable, same⟩ := walked.known name known'
      exact ⟨other, later askable, same⟩
    · exact ⟨node, ⟨member, fun _ => List.mem_append_right _ (List.mem_singleton_self _)⟩, rfl⟩

end Run

/-- Wherever the check of a level has come to, the walks from the siblings that may be asked about
end. -/
theorem walked_of_reached {nodes before after : List Node} {ancestors : List String} {node : Node}
    (reached : Reached nodes ancestors before node after) :
    Walked nodes before (before.foldl addSequence (bucketingNames nodes)) := by
  obtain ⟨split, alone, accepted⟩ := reached
  have distinct := (validateNodes_eq_ok.mp alone).1
  generalize node :: after = rest at split
  -- What comes before a node is accepted without it, so the loop is taken apart from its end.
  induction before using List.reverseRecOn generalizing rest with
  | nil => exact walked_nil distinct
  | append_singleton before first ih =>
      rw [List.append_assoc, List.singleton_append] at split
      rw [validatePipelines_append, check_eq_ok, validatePipelines_cons, check_eq_ok,
        List.append_nil] at accepted
      obtain ⟨accepted, checked, -⟩ := accepted
      rw [List.foldl_append, List.foldl_cons, List.foldl_nil]
      exact walked_step distinct split (ih accepted _ split) checked

end Forest

end Rollup
