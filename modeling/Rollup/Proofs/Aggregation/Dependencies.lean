import Rollup.Proofs.Aggregation.Evaluate
import Rollup.Proofs.Aggregation.Resolve

/-! # What pipelines read

A level that is accepted tells what each of its pipelines will find: a sequence if the sibling it
reads has one value for each bucket, and a single value otherwise. It does not tell whether memory can
be set aside for the windows that its moving averages ask for.
-/

namespace Rollup

namespace Forest

variable {nodes : List Node}

/-- A node reads a sibling by a path. -/
structure Reads (nodes : List Node) (node target : Node) (path : BucketsPath) : Prop where
  asked : BucketsPath.ofNode node = .ok path
  member : target ∈ nodes
  name : target.name = path.sibling

/-- Nodes that have one value for each bucket: bucketing nodes, and parallel pipelines that read such
a node. -/
inductive Serial (nodes : List Node) : Node → Prop where
  | bucketing {node : Node} : node ∈ nodes → node.kind = .bucketing → Serial nodes node
  | parallel {node target : Node} {pipeline : Pipeline} {path : BucketsPath} :
      node ∈ nodes → Method.ofName? node.typeName = some (.pipeline pipeline) →
      pipeline.isParallel → Reads nodes node target path → Serial nodes target →
      Serial nodes node

/-- A pipeline asks a sibling for a property though it has one value for each bucket. -/
def Misreads (nodes : List Node) (node : Node) (sibling : String) : Prop :=
  node ∈ nodes ∧ node.isPipeline ∧ ∃ target property,
    Reads nodes node target ⟨sibling, .itself (some property)⟩ ∧ Serial nodes target

/-- The error of a pipeline that finds something else than it asks for. -/
def mismatch (node : Node) (sibling : String) : Error :=
  .invalidDependency node.name sibling .shapeMismatch

/-- What can go wrong with a pipeline of an accepted level. -/
inductive PipelineFault [Memory] (nodes : List Node) (node : Node) : Error → Prop where
  | misreads {sibling : String} :
      Misreads nodes node sibling → PipelineFault nodes node (mismatch node sibling)
  | overreaches : node.Overreaches → PipelineFault nodes node .breakdown

/-- What validation allows a pipeline to read from a sibling. -/
structure Allowed (earlier : List Node) (sequences : List String) (node target : Node)
    (path : BucketsPath) : Prop where
  bucketing : target.kind = .bucketing → ∀ property, path.target ≠ .itself (some property)
  plain : target.kind ≠ .bucketing → ∃ property, path.target = .itself property
  declared : target.isPipeline → ∃ other ∈ earlier, other.name = target.name
  sequence : ∀ pipeline, Method.ofName? node.typeName = some (.pipeline pipeline) →
    pipeline.requiresSequence → target.kind = .bucketing ∨ target.name ∈ sequences

theorem Allowed.of_bucketing {earlier : List Node} {sequences : List String} {node target : Node}
    {path : BucketsPath} (is : target.kind = .bucketing)
    (h : ∀ property, path.target ≠ .itself (some property)) :
    Allowed earlier sequences node target path where
  bucketing _ := h
  plain not := absurd is not
  declared pipeline := by simp [Node.isPipeline, is] at pipeline
  sequence _ _ _ := .inl is

theorem allowed_of_validateDependency {ancestors : List String} {earlier : List Node}
    {sequences : List String} {node : Node}
    (h : validateDependency nodes ancestors earlier sequences node = .ok ()) :
    ∃ target path, Reads nodes node target path ∧ target.name ≠ node.name ∧
      Allowed earlier sequences node target path := by
  obtain ⟨path, read, h⟩ := bind_eq_ok.mp h
  split at h
  · cases h
  rename_i other
  split at h
  · split at h <;> cases h
  rename_i target found
  have member := List.mem_of_find?_eq_some found
  have name : target.name = path.sibling := by simpa using List.find?_some found
  refine ⟨target, path, ⟨read, member, name⟩, name ▸ other, ?_⟩
  dsimp only at h
  split at h
  case h_1 is reads => exact .of_bucketing is (by simp [reads])
  case h_2 is reads => exact .of_bucketing is (by simp [reads])
  case h_3 => cases h
  case h_4 is reads => exact .of_bucketing is (by simp [reads])
  case h_5 => cases h
  case h_6 => cases h
  case h_7 property is unnamed named =>
    have plain : target.kind ≠ .bucketing := fun bucketing => by
      cases property with
      | none => exact unnamed bucketing rfl
      | some name => exact named name bucketing rfl
    split at h
    · cases h
    rename_i declared
    obtain ⟨method, asked, h⟩ := bind_eq_ok.mp h
    refine ⟨fun is => absurd is plain, fun _ => ⟨property, is⟩, fun pipeline => ?_, ?_⟩
    · by_contra later
      exact declared ⟨by simpa [Node.isPipeline] using pipeline, by simpa using later⟩
    · intro pipeline named requires
      cases (Method.find_eq_ok.mp asked).symm.trans named
      refine .inr (by_contra fun missing => ?_)
      rw [if_pos ⟨requires, missing⟩] at h
      cases h

/-- Results that a node of a level may have. -/
inductive Fits (nodes : List Node) (node : Node) : Result → Prop where
  | buckets {buckets : List Bucket} {otherCount : Option Nat} :
      node.kind = .bucketing → Fits nodes node (.buckets buckets otherCount)
  | value {value : Value} : ¬ Serial nodes node → Fits nodes node (.value value)
  | series {values : List (Key × Option Float)} :
      node.isPipeline → Serial nodes node → Fits nodes node (.series values)

end Forest

/-! ## What pipelines accept -/

section Compute

variable {pipeline : Pipeline} {node : Node}

theorem parameters_of_validate (valid : pipeline.validate node = .ok ()) :
    (∃ policy, GapPolicy.ofNode node = .ok policy) ∧
      (pipeline = .movingAvg → ∃ window, Pipeline.windowOf node = .ok window) := by
  unfold Pipeline.validate at valid
  cases asked : node.field with
  | some field =>
      simp only [asked] at valid
      cases valid
  | none =>
      simp only [asked] at valid
      obtain ⟨path, -, valid⟩ := bind_eq_ok.mp valid
      obtain ⟨policy, gaps, valid⟩ := bind_eq_ok.mp valid
      refine ⟨⟨policy, gaps⟩, fun is => ?_⟩
      rw [if_pos is] at valid
      obtain ⟨window, windowed, -⟩ := bind_eq_ok.mp valid
      exact ⟨window, windowed⟩

/-- A pipeline other than a moving average needs no memory for a window. -/
theorem not_overreaches [Memory] (named : Method.ofName? node.typeName = some (.pipeline pipeline))
    (other : pipeline ≠ .movingAvg) : ¬ node.Overreaches := by
  intro overreaches
  cases named.symm.trans overreaches.named
  exact other rfl

/-- A pipeline accepts every sequence for which there is memory: a parallel one makes a series of it,
others a value. -/
theorem compute_sequence [Memory] (checked : node.Checked (.pipeline pipeline))
    (values : List (Key × Option Float)) :
    (¬ node.Overreaches ∧ ∃ result, pipeline.compute node (.sequence values) = .ok result ∧
      if pipeline.isParallel then ∃ series, result = .series series
      else ∃ value, result = .value value) ∨
    node.Overreaches ∧ pipeline.compute node (.sequence values) = .error .breakdown := by
  obtain ⟨⟨policy, gaps⟩, windows⟩ := parameters_of_validate checked.parameters
  have mapped (f : List (Option Float) → List (Option Float)) :
      ∃ series, Pipeline.overSequence node (.sequence values) f = .ok (.series series) :=
    ⟨_, bind_eq_ok.mpr ⟨policy, gaps, rfl⟩⟩
  cases pipeline with
  | derivative =>
      obtain ⟨series, computed⟩ := mapped (Pipeline.differences none)
      exact .inl ⟨not_overreaches checked.named nofun, _, computed, series, rfl⟩
  | cumulativeSum =>
      obtain ⟨series, computed⟩ := mapped (Pipeline.runningSums 0.0)
      exact .inl ⟨not_overreaches checked.named nofun, _, computed, series, rfl⟩
  | movingAvg =>
      obtain ⟨window, windowed⟩ := windows rfl
      by_cases fits : window ≤ Memory.room
      · obtain ⟨series, computed⟩ := mapped (Pipeline.movingMeans window [])
        have within : ¬ node.Overreaches := fun overreaches => by
          obtain ⟨asked, windowed', beyond⟩ := overreaches.beyond
          cases windowed.symm.trans windowed'
          exact Nat.not_le.mpr beyond fits
        refine .inl ⟨within, _, ?_, series, rfl⟩
        rw [Pipeline.compute_movingAvg_of_le windowed _ fits]
        exact computed
      · have beyond := Nat.not_le.mp fits
        have is : node.isPipeline := by simp [Node.isPipeline, ← checked.kind, Method.kind]
        exact .inr ⟨⟨is, checked.named, window, windowed, beyond⟩,
          Pipeline.compute_movingAvg_of_lt windowed _ beyond⟩
  | reduce reducer =>
      exact .inl ⟨not_overreaches checked.named nofun, _, bind_eq_ok.mpr ⟨policy, gaps, rfl⟩, _, rfl⟩

/-- A pipeline accepts a single value unless it requires a sequence. -/
theorem compute_scalar [Memory] (scalar : ¬ pipeline.requiresSequence) (value : Option Float) :
    ∃ reduced, pipeline.compute node (.scalar value) = .ok (.value reduced) := by
  cases pipeline with
  | derivative => exact absurd rfl scalar
  | cumulativeSum => exact ⟨.single value, rfl⟩
  | movingAvg => exact absurd rfl scalar
  | reduce reducer => exact ⟨reducer.applyScalar value, rfl⟩

end Compute

namespace Forest

variable {nodes earlier : List Node} {sequences : List String} {results : Entries Result}
  {node target : Node} {path : BucketsPath}

/-- What a pipeline reads is a sequence if the sibling has one value for each bucket. It cannot read
anything if it asks for a property all the same. -/
theorem siblingValues_of_fits (member : target ∈ nodes) (allowed : Allowed earlier sequences node target path)
    {result : Result} (found : results.lookup path.sibling = some result)
    (fits : Fits nodes target result) :
    (¬ Serial nodes target ∧ ∃ value, siblingValues node path results = .ok (.scalar value)) ∨
      (Serial nodes target ∧ (∀ property, path.target ≠ .itself (some property)) ∧
        ∃ values, siblingValues node path results = .ok (.sequence values)) ∨
      (Serial nodes target ∧ (∃ property, path.target = .itself (some property)) ∧
        siblingValues node path results = .error (mismatch node path.sibling)) := by
  unfold siblingValues
  rw [found]
  cases fits with
  | buckets is =>
      refine .inr (.inl ⟨.bucketing member is, allowed.bucketing is, ?_⟩)
      cases reads : path.target with
      | itself property =>
          cases property with
          | none => exact ⟨_, rfl⟩
          | some property => exact absurd reads (allowed.bucketing is property)
      | count => exact ⟨_, rfl⟩
      | metric inner => exact ⟨_, rfl⟩
  | value single =>
      obtain ⟨property, reads⟩ := allowed.plain fun is => single (.bucketing member is)
      refine .inl ⟨single, ?_⟩
      rw [reads]
      exact ⟨_, rfl⟩
  | series is serial =>
      have plain : target.kind ≠ .bucketing := fun bucketing => by
        simp [Node.isPipeline, bucketing] at is
      obtain ⟨property, reads⟩ := allowed.plain plain
      rw [reads]
      cases property with
      | none => exact .inr (.inl ⟨serial, nofun, _, rfl⟩)
      | some property => exact .inr (.inr ⟨serial, ⟨property, rfl⟩, rfl⟩)

/-- How far the pipelines of a level are resolved: nodes that are no pipelines, and pipelines that are
declared earlier, have their results. -/
structure Progress (nodes earlier : List Node) (sequences : List String)
    (results : Entries Result) : Prop where
  fits : ∀ node ∈ nodes, (node.isPipeline → node ∈ earlier) →
    ∃ result, results.lookup node.name = some result ∧ Fits nodes node result
  serial : ∀ node ∈ nodes, (node.isPipeline → node ∈ earlier) →
    (node.name ∈ sequences ↔ Serial nodes node)
  known : ∀ name ∈ sequences, ∃ node ∈ nodes, (node.isPipeline → node ∈ earlier) ∧ node.name = name

/-- The invariant is kept where a node is passed that is no pipeline. -/
theorem progress_plain (progress : Progress nodes earlier sequences results)
    (plain : ¬ node.isPipeline) : Progress nodes (node :: earlier) sequences results := by
  have same (other : Node) : (other.isPipeline → other ∈ node :: earlier) ↔
      (other.isPipeline → other ∈ earlier) := by
    refine forall_congr' fun is => List.mem_cons.trans (or_iff_right ?_)
    rintro rfl
    exact plain is
  refine ⟨?_, ?_, ?_⟩
  · simpa only [same] using progress.fits
  · simpa only [same] using progress.serial
  · simpa only [same] using progress.known

theorem resolvePipeline_eq [Memory] {pipeline : Pipeline}
    (named : Method.ofName? node.typeName = some (.pipeline pipeline))
    (asked : BucketsPath.ofNode node = .ok path) :
    resolvePipeline results node = do
      let input ← siblingValues node path results
      let result ← pipeline.compute node input
      return Entries.set results node.name result := by
  rw [resolvePipeline, Method.find_eq_ok.mpr named]
  show (BucketsPath.ofNode node >>= _) = _
  rw [asked]
  rfl

theorem resolvePipeline_of_compute [Memory] {pipeline : Pipeline}
    (named : Method.ofName? node.typeName = some (.pipeline pipeline))
    (asked : BucketsPath.ofNode node = .ok path) {input : SiblingValues}
    (read : siblingValues node path results = .ok input) {result : Result}
    (computed : pipeline.compute node input = .ok result) :
    resolvePipeline results node = .ok (Entries.set results node.name result) := by
  rw [resolvePipeline_eq named asked]
  exact bind_eq_ok.mpr ⟨input, read, bind_eq_ok.mpr ⟨result, computed, rfl⟩⟩

section Step

variable (valid : validate nodes = .ok ())

include valid

theorem pipeline_of_validate (member : node ∈ nodes) (is : node.isPipeline) :
    ∃ pipeline, node.Checked (.pipeline pipeline) := by
  obtain ⟨method, checked⟩ := checked_of_validate valid node member
  have kind : method.kind = .pipeline := checked.kind.trans (by simpa [Node.isPipeline] using is)
  cases method with
  | pipeline pipeline => exact ⟨pipeline, checked⟩
  | _ => cases kind

/-- What an accepted pipeline reads has its result already. -/
theorem resolved_of_allowed (before : earlier ⊆ nodes) (reads : Reads nodes node target path)
    (allowed : Allowed earlier sequences node target path) : target.isPipeline → target ∈ earlier := by
  intro is
  obtain ⟨other, hother, same⟩ := allowed.declared is
  rwa [← eq_of_name valid (before hother) reads.member same]

theorem reads_unique (reads : Reads nodes node target path) {other : Node} {path' : BucketsPath}
    (reads' : Reads nodes node other path') : other = target ∧ path' = path := by
  obtain rfl : path' = path := Except.ok.inj (reads'.asked.symm.trans reads.asked)
  exact ⟨eq_of_name valid reads'.member reads.member (reads'.name.trans reads.name.symm), rfl⟩

variable (member : node ∈ nodes)

include member

theorem serial_iff {pipeline : Pipeline} (checked : node.Checked (.pipeline pipeline))
    (reads : Reads nodes node target path) :
    Serial nodes node ↔ pipeline.isParallel ∧ Serial nodes target := by
  constructor
  · intro serial
    cases serial with
    | bucketing _ is => cases checked.kind.trans is
    | parallel _ named parallel reads' serial =>
        cases checked.named.symm.trans named
        obtain ⟨rfl, rfl⟩ := reads_unique valid reads reads'
        exact ⟨parallel, serial⟩
  · rintro ⟨parallel, serial⟩
    exact .parallel member checked.named parallel reads serial

theorem misreads_iff (is : node.isPipeline) (reads : Reads nodes node target path)
    {sibling : String} : Misreads nodes node sibling ↔
      sibling = path.sibling ∧ (∃ property, path.target = .itself (some property)) ∧
        Serial nodes target := by
  constructor
  · rintro ⟨-, -, other, property, reads', serial⟩
    obtain ⟨rfl, rfl⟩ := reads_unique valid reads reads'
    exact ⟨rfl, ⟨property, rfl⟩, serial⟩
  · rintro ⟨rfl, ⟨property, asks⟩, serial⟩
    refine ⟨member, is, target, property, ⟨?_, reads.member, reads.name⟩, serial⟩
    rw [← asks]
    exact reads.asked

/-- A pipeline is resolved to what a node of its kind may have, or else something is wrong with it. -/
theorem resolvePipeline_of_progress [Memory] (progress : Progress nodes earlier sequences results)
    (before : earlier ⊆ nodes) (is : node.isPipeline) {ancestors : List String}
    (accepted : validateDependency nodes ancestors earlier sequences node = .ok ()) :
    (∃ result, resolvePipeline results node = .ok (Entries.set results node.name result) ∧
      Fits nodes node result ∧ ∀ e, ¬ PipelineFault nodes node e) ∨
    ∃ e, PipelineFault nodes node e ∧ resolvePipeline results node = .error e := by
  obtain ⟨pipeline, checked⟩ := pipeline_of_validate valid member is
  obtain ⟨target, path, reads, -, allowed⟩ := allowed_of_validateDependency accepted
  have resolved := resolved_of_allowed valid before reads allowed
  obtain ⟨result, found, fits⟩ := progress.fits target reads.member resolved
  have serial := serial_iff valid member checked reads
  have misreads (sibling : String) : Misreads nodes node sibling ↔ _ :=
    misreads_iff valid member is reads
  rw [reads.name] at found
  rcases siblingValues_of_fits reads.member allowed found fits with
    ⟨single, value, read⟩ | ⟨several, named, values, read⟩ | ⟨several, named, read⟩
  · -- Validation lets no pipeline that requires a sequence read a sibling with a single value.
    have scalar : ¬ pipeline.requiresSequence := fun requires => by
      rcases allowed.sequence pipeline checked.named requires with is | known
      · exact single (.bucketing reads.member is)
      · exact single ((progress.serial target reads.member resolved).mp known)
    obtain ⟨reduced, computed⟩ := compute_scalar scalar value
    refine .inl ⟨.value reduced, ?_, .value fun h => single (serial.mp h).2, fun e fault => ?_⟩
    · exact resolvePipeline_of_compute checked.named reads.asked read computed
    · cases fault with
      | misreads h => exact single ((misreads _).mp h).2.2
      | overreaches h =>
          refine not_overreaches checked.named ?_ h
          rintro rfl
          exact scalar rfl
  · rcases compute_sequence checked values with
      ⟨within, result, computed, shape⟩ | ⟨overreaches, computed⟩
    · refine .inl ⟨result, ?_, ?_, fun e fault => ?_⟩
      · exact resolvePipeline_of_compute checked.named reads.asked read computed
      · by_cases parallel : pipeline.isParallel
        · rw [if_pos parallel] at shape
          obtain ⟨series, rfl⟩ := shape
          exact .series is (serial.mpr ⟨parallel, several⟩)
        · rw [if_neg parallel] at shape
          obtain ⟨value, rfl⟩ := shape
          exact .value fun h => parallel (serial.mp h).1
      · cases fault with
        | misreads h =>
            obtain ⟨-, ⟨property, asks⟩, -⟩ := (misreads _).mp h
            exact named property asks
        | overreaches h => exact within h
    · refine .inr ⟨.breakdown, .overreaches overreaches, ?_⟩
      rw [resolvePipeline_eq checked.named reads.asked, read]
      show (pipeline.compute node (.sequence values) >>= _) = _
      rw [computed]
      rfl
  · refine .inr ⟨_, .misreads ((misreads path.sibling).mpr ⟨rfl, named, several⟩), ?_⟩
    rw [resolvePipeline_eq checked.named reads.asked, read]
    rfl

theorem yieldsSequence_iff (progress : Progress nodes earlier sequences results)
    (before : earlier ⊆ nodes) (is : node.isPipeline) {ancestors : List String}
    (accepted : validateDependency nodes ancestors earlier sequences node = .ok ()) :
    yieldsSequence sequences node ↔ Serial nodes node := by
  obtain ⟨pipeline, checked⟩ := pipeline_of_validate valid member is
  obtain ⟨target, path, reads, -, allowed⟩ := allowed_of_validateDependency accepted
  have known := progress.serial target reads.member (resolved_of_allowed valid before reads allowed)
  have inside (plain : ∀ property, path.target ≠ .itself property) : Serial nodes target := by
    by_contra single
    obtain ⟨property, reads⟩ := allowed.plain fun is => single (.bucketing reads.member is)
    exact plain property reads
  rw [serial_iff valid member checked reads, yieldsSequence, checked.named, reads.asked]
  obtain ⟨sibling, asks⟩ := path
  rw [reads.name] at known
  cases asks with
  | itself property => simpa using fun _ => known
  | count => simp [inside nofun]
  | metric inner => simp [inside nofun]

/-- The invariant is kept where a pipeline is resolved. -/
theorem progress_pipeline (progress : Progress nodes earlier sequences results)
    (is : node.isPipeline) (fresh : node ∉ earlier)
    (yields : yieldsSequence sequences node ↔ Serial nodes node) {result : Result}
    (fits : Fits nodes node result) :
    Progress nodes (node :: earlier)
      (if yieldsSequence sequences node then node.name :: sequences else sequences)
      (Entries.set results node.name result) := by
  have split {other : Node} (resolved : other.isPipeline → other ∈ node :: earlier) :
      other = node ∨ other ≠ node ∧ (other.isPipeline → other ∈ earlier) := by
    by_cases same : other = node
    · exact .inl same
    · exact .inr ⟨same, fun is => (List.mem_cons.mp (resolved is)).resolve_left same⟩
  -- No node is known under its name before it is declared.
  have unknown : node.name ∉ sequences := fun known => by
    obtain ⟨other, hother, resolved, same⟩ := progress.known _ known
    obtain rfl := eq_of_name valid hother member same
    exact fresh (resolved is)
  have other_name {other : Node} (hother : other ∈ nodes) (different : other ≠ node) :
      other.name ≠ node.name := fun same => different (eq_of_name valid hother member same)
  refine ⟨fun other hother resolved => ?_, fun other hother resolved => ?_, fun name h => ?_⟩
  · rw [Entries.lookup_set]
    rcases split resolved with rfl | ⟨different, resolved⟩
    · exact ⟨result, if_pos rfl, fits⟩
    · rw [if_neg (other_name hother different)]
      exact progress.fits other hother resolved
  · rcases split resolved with rfl | ⟨different, resolved⟩
    · rw [← yields]
      split_ifs with h <;> simp [unknown, h]
    · rw [← progress.serial other hother resolved]
      split_ifs <;> simp [other_name hother different]
  · have cases_name : name = node.name ∨ name ∈ sequences := by
      split_ifs at h
      · exact List.mem_cons.mp h
      · exact .inr h
    rcases cases_name with rfl | h
    · exact ⟨node, member, fun _ => List.mem_cons_self, rfl⟩
    · obtain ⟨other, hother, resolved, same⟩ := progress.known name h
      exact ⟨other, hother, fun is => List.mem_cons_of_mem _ (resolved is), same⟩

end Step

/-- Resolving the pipelines of an accepted level fails exactly if something is wrong with one of
them. -/
theorem resolvePipelines_failsWith [Memory] (valid : validate nodes = .ok ())
    {ancestors : List String} {rest : List Node} (split : nodes = earlier.reverse ++ rest)
    (accepted : validatePipelines nodes ancestors earlier sequences rest = .ok ())
    (progress : Progress nodes earlier sequences results) :
    FailsWith (resolvePipelines rest results) fun e => ∃ node ∈ rest, PipelineFault nodes node e := by
  unfold resolvePipelines
  -- Validation and resolving go through the level in the same order, so that the induction carries
  -- what is known before each node.
  induction rest generalizing earlier sequences results with
  | nil => exact fun e ⟨node, member, _⟩ => by cases member
  | cons node rest ih =>
      have split' : nodes = (node :: earlier).reverse ++ rest := by simp [split]
      have member : node ∈ nodes := by simp [split]
      have before : earlier ⊆ nodes := fun other member => by simp [split, member]
      have later (sound : ∀ e, ¬ PipelineFault nodes node e) (e : Error) :
          (∃ other ∈ rest, PipelineFault nodes other e) ↔
            ∃ other ∈ node :: rest, PipelineFault nodes other e := by
        simp [sound]
      rw [validatePipelines] at accepted
      by_cases is : node.isPipeline
      · rw [if_pos is] at accepted
        obtain ⟨checked, accepted⟩ := check_eq_ok.mp accepted
        have yields := yieldsSequence_iff valid member progress before is checked
        rw [List.filter_cons_of_pos is, List.foldlM_cons]
        rcases resolvePipeline_of_progress valid member progress before is checked with
          ⟨result, resolved, fits, sound⟩ | ⟨e, fault, failed⟩
        · have fresh : node ∉ earlier := fun early => by
            have distinct := (names_of_validate valid).of_map
            rw [split, List.nodup_append] at distinct
            exact distinct.2.2 node (List.mem_reverse.mpr early) node List.mem_cons_self rfl
          rw [resolved]
          exact (ih split' accepted (progress_pipeline valid member progress is fresh yields fits)).congr
            (later sound)
        · rw [failed]
          exact ⟨node, List.mem_cons_self, fault⟩
      · rw [if_neg is] at accepted
        rw [List.filter_cons_of_neg is]
        refine (ih split' accepted (progress_plain progress is)).congr (later fun e fault => ?_)
        cases fault with
        | misreads h => exact is h.2.1
        | overreaches h => exact is h.is

end Forest

end Rollup
