import Rollup.Proofs.Aggregation.Dependencies

/-! # When resolving fails

Once an accepted forest is built, two things can go wrong: a pipeline asks for a property of a sibling
that has one value for each bucket, or a moving average asks for a window that memory cannot be set
aside for. Nothing else fails, at any depth.
-/

namespace Rollup

open Forest

/-! ## Built levels -/

section Level

variable {limits : Limits} {rows : List Row} {nodes : List Node} {built : Entries Result}

theorem plain_of_lookup (h : evaluateAll limits rows nodes = .ok built) {name : String}
    {result : Result} (found : built.lookup name = some result) :
    ∃ node ∈ nodes, node.name = name ∧ ¬ node.isPipeline ∧
      evaluate limits rows node = .ok result := by
  rw [evaluateAll_eq] at h
  obtain ⟨node, member, computed⟩ := exists_item h (mem_of_lookup found)
  obtain ⟨result, evaluated, ⟨⟩⟩ := bind_eq_ok.mp computed
  obtain ⟨member, plain⟩ := List.mem_filter.mp member
  exact ⟨node, member, rfl, by simpa using plain, evaluated⟩

variable (valid : Forest.validate nodes = .ok ())

include valid

theorem kind_of_serial {node : Node} (plain : ¬ node.isPipeline) (serial : Serial nodes node) :
    node.kind = .bucketing := by
  cases serial with
  | bucketing _ is => exact is
  | parallel member named =>
      obtain ⟨method, checked⟩ := checked_of_validate valid node member
      cases checked.named.symm.trans named
      exact absurd (by simp [Node.isPipeline, ← checked.kind, Method.kind]) plain

variable (h : evaluateAll limits rows nodes = .ok built)

include h

/-- A level that is built is one whose pipelines are still to be resolved. -/
theorem progress_of_evaluateAll :
    Progress nodes [] ((nodes.filter (·.kind = .bucketing)).map (·.name)) built := by
  have not {node : Node} (plain : node.isPipeline → node ∈ []) : ¬ node.isPipeline :=
    fun is => by cases plain is
  have of_name {name : String} (known : name ∈ (nodes.filter (·.kind = .bucketing)).map (·.name)) :
      ∃ node ∈ nodes, node.kind = .bucketing ∧ node.name = name := by
    simpa [and_assoc] using known
  refine ⟨fun node member plain => ?_, fun node member plain => ?_, fun name known => ?_⟩
  · obtain ⟨method, checked⟩ := checked_of_validate valid node member
    obtain ⟨result, found, evaluated⟩ :=
      lookup_evaluateAll (names_of_validate valid) h member (not plain)
    refine ⟨result, found, ?_⟩
    rcases result_of_evaluate checked.named evaluated with
      ⟨is, buckets, otherCount, rfl⟩ | ⟨is, value, rfl⟩
    · exact .buckets (checked.kind.symm.trans is)
    · refine .value fun serial => ?_
      cases (checked.kind.symm.trans is).symm.trans (kind_of_serial valid (not plain) serial)
  · constructor
    · intro known
      obtain ⟨other, hother, is, same⟩ := of_name known
      obtain rfl := eq_of_name valid hother member same
      exact .bucketing member is
    · intro serial
      have is := kind_of_serial valid (not plain) serial
      exact List.mem_map_of_mem (List.mem_filter.mpr ⟨member, by simpa using is⟩)
  · obtain ⟨node, member, is, rfl⟩ := of_name known
    exact ⟨node, member, fun pipeline => by simp [Node.isPipeline, is] at pipeline, rfl⟩

theorem resolvePipelines_failsWith_of_validate [Memory] :
    FailsWith (resolvePipelines nodes built) fun e => ∃ node ∈ nodes, PipelineFault nodes node e := by
  have level := check_eq_ok.mp (validate_eq_ok.mp valid).1
  exact resolvePipelines_failsWith valid (by simp) level.2 (progress_of_evaluateAll valid h)

/-- Resolving the pipelines of a level changes no buckets. -/
theorem lookup_buckets_iff [Memory] {results : Entries Result}
    (resolved : resolvePipelines nodes built = .ok results) {node : Node} (member : node ∈ nodes)
    {buckets : List Bucket} {otherCount : Option Nat} :
    results.lookup node.name = some (.buckets buckets otherCount) ↔
      built.lookup node.name = some (.buckets buckets otherCount) := by
  by_cases is : node.isPipeline
  · have unbuilt (result : Result) : built.lookup node.name ≠ some result := fun found => by
      obtain ⟨other, hother, same, plain, -⟩ := plain_of_lookup h found
      obtain rfl := eq_of_name valid hother member same
      exact plain is
    refine iff_of_false (fun found => ?_) (unbuilt _)
    have never := buckets?_resolvePipelines resolved
      (fun result before => absurd before (unbuilt result)) _ found
    cases never
  · rw [lookup_resolvePipelines resolved fun other hother pipeline same => ?_]
    obtain rfl := eq_of_name valid hother member same
    exact is pipeline

end Level

/-! ## Levels that are reached -/

/-- The levels that resolving comes to: the first one, and those in its buckets at any depth. -/
inductive Reaches : List Node → Entries Result → List Node → Prop where
  | here {nodes : List Node} {results : Entries Result} : Reaches nodes results nodes
  | bucket {nodes level : List Node} {results : Entries Result} {node : Node}
      {buckets : List Bucket} {otherCount : Option Nat} {bucket : Bucket} :
      node ∈ nodes → results.lookup node.name = some (.buckets buckets otherCount) →
      bucket ∈ buckets → Reaches node.children bucket.results level → Reaches nodes results level

/-- What a node of an accepted level may have before it is resolved: in its buckets, levels that are
built. -/
def LevelsBuilt (limits : Limits) (node : Node) (result : Result) : Prop :=
  ∀ buckets otherCount, result = .buckets buckets otherCount → node.kind = .bucketing ∧
    ∀ bucket ∈ buckets, ∃ rows, evaluateAll limits rows node.children = .ok bucket.results

theorem levelsBuilt_of_evaluate {limits : Limits} {rows : List Row} {node : Node} {method : Method}
    (checked : node.Checked method) {result : Result}
    (h : evaluate limits rows node = .ok result) : LevelsBuilt limits node result := by
  rintro buckets otherCount rfl
  obtain ⟨bucketing, kept, named, -, each⟩ := evaluate_buckets_iff.mp h
  cases checked.named.symm.trans named
  refine ⟨checked.kind.symm, fun bucket member => ?_⟩
  obtain ⟨candidate, -, -, -, evaluated⟩ := exists_related each member
  exact ⟨candidate.ids, evaluated⟩

section Faults

variable [Memory]

/-- What goes wrong with pipelines on all levels that resolving comes to. -/
def Fault (nodes : List Node) (results : Entries Result) (e : Error) : Prop :=
  ∃ level, Reaches nodes results level ∧ ∃ node ∈ level, PipelineFault level node e

/-- What goes wrong in the buckets of a result. -/
def FaultIn (node : Node) (result : Result) (e : Error) : Prop :=
  ∃ buckets otherCount, result = .buckets buckets otherCount ∧
    ∃ bucket ∈ buckets, Fault node.children bucket.results e

theorem fault_iff {nodes : List Node} {results : Entries Result} {e : Error} :
    Fault nodes results e ↔
      (∃ node ∈ nodes, PipelineFault nodes node e) ∨
        ∃ node ∈ nodes, ∃ result, results.lookup node.name = some result ∧
          FaultIn node result e := by
  constructor
  · rintro ⟨level, reached, own⟩
    cases reached with
    | here => exact .inl own
    | bucket member found hbucket inner =>
        exact .inr ⟨_, member, _, found, _, _, rfl, _, hbucket, level, inner, own⟩
  · rintro (own | ⟨node, member, result, found, buckets, otherCount, rfl, bucket, hbucket, fault⟩)
    · exact ⟨nodes, .here, own⟩
    · obtain ⟨level, inner, own⟩ := fault
      exact ⟨level, .bucket member found hbucket inner, own⟩

theorem not_fault_nil {results : Entries Result} {e : Error} : ¬ Fault [] results e := by
  rw [fault_iff]
  rintro (⟨node, member, -⟩ | ⟨node, member, -⟩) <;> cases member

/-- Resolving a level that is built fails as it should, if what is below does. -/
theorem resolve_failsWith_of_below {limits : Limits} {rows : List Row} {nodes : List Node}
    {built : Entries Result} (valid : Forest.validate nodes = .ok ())
    (h : evaluateAll limits rows nodes = .ok built)
    (below : ∀ results, (∀ node ∈ nodes, ∀ result, results.lookup node.name = some result →
        LevelsBuilt limits node result) →
      FailsWith (resolveAllBelow results nodes) fun e =>
        ∃ node ∈ nodes, ∃ result, results.lookup node.name = some result ∧ FaultIn node result e) :
    FailsWith (resolve nodes built) (Fault nodes built) := by
  have pipelines := resolvePipelines_failsWith_of_validate valid h
  refine (pipelines.bind fun results resolved => ?_).congr fun e => fault_iff.symm
  have same {node : Node} (member : node ∈ nodes) (buckets : List Bucket) (otherCount : Option Nat) :
      results.lookup node.name = some (.buckets buckets otherCount) ↔
        built.lookup node.name = some (.buckets buckets otherCount) :=
    lookup_buckets_iff valid h resolved member
  refine (below results ?_).congr fun e => ?_
  · rintro node member result found buckets otherCount rfl
    rw [same member] at found
    obtain ⟨other, hother, name, -, evaluated⟩ := plain_of_lookup h found
    obtain rfl := eq_of_name valid hother member name
    obtain ⟨method, checked⟩ := checked_of_validate valid other member
    exact levelsBuilt_of_evaluate checked evaluated buckets otherCount rfl
  · refine exists_congr fun node => and_congr_right fun member => ?_
    constructor
    · rintro ⟨result, found, buckets, otherCount, rfl, fault⟩
      exact ⟨_, (same member buckets otherCount).mp found, buckets, otherCount, rfl, fault⟩
    · rintro ⟨result, found, buckets, otherCount, rfl, fault⟩
      exact ⟨_, (same member buckets otherCount).mpr found, buckets, otherCount, rfl, fault⟩

mutual

theorem resolveBelow_failsWith (limits : Limits) : ∀ (node : Node) (result : Result),
    Forest.validate node.children = .ok () → LevelsBuilt limits node result →
      FailsWith (resolveBelow node result) (FaultIn node result)
  | node, .value value, valid, levels => by
      rw [resolveBelow_of_not_buckets rfl]
      rintro e ⟨buckets, otherCount, ⟨⟩, -⟩
  | node, .series values, valid, levels => by
      rw [resolveBelow_of_not_buckets rfl]
      rintro e ⟨buckets, otherCount, ⟨⟩, -⟩
  | ⟨name, typeName, kind, field, params, children⟩, .buckets buckets otherCount, valid, levels => by
      obtain ⟨is, levels⟩ := levels buckets otherCount rfl
      have faults (e : Error) : (∃ bucket ∈ buckets, Fault children bucket.results e) ↔
          FaultIn ⟨name, typeName, kind, field, params, children⟩ (.buckets buckets otherCount) e := by
        constructor
        · exact fun fault => ⟨buckets, otherCount, rfl, fault⟩
        · rintro ⟨buckets, otherCount, ⟨⟩, fault⟩
          exact fault
      refine FailsWith.congr faults ?_
      rw [resolveBelow]
      split
      · refine .andReturn (.mapM fun bucket member => ?_)
        obtain ⟨rows, evaluated⟩ := levels bucket member
        have level := resolve_failsWith_of_below valid evaluated fun results built =>
          resolveAllBelow_failsWith limits children results (below_of_validate valid) built
        have inner := level.andReturn (f := fun results => { bucket with results })
        rwa [resolve, bind_assoc] at inner
      · rename_i bare
        have leaf : children = [] := by
          by_contra some
          simp_all
        subst leaf
        rintro e ⟨bucket, -, fault⟩
        exact not_fault_nil fault

theorem resolveAllBelow_failsWith (limits : Limits) : ∀ (nodes : List Node)
    (results : Entries Result), (∀ node ∈ nodes, Forest.validate node.children = .ok ()) →
      (∀ node ∈ nodes, ∀ result, results.lookup node.name = some result →
        LevelsBuilt limits node result) →
      FailsWith (resolveAllBelow results nodes) fun e =>
        ∃ node ∈ nodes, ∃ result, results.lookup node.name = some result ∧ FaultIn node result e
  | [], results, valid, levels => by
      rintro e ⟨node, member, -⟩
      cases member
  | node :: nodes, results, valid, levels => by
      rw [List.forall_mem_cons] at valid levels
      have rest := resolveAllBelow_failsWith limits nodes results valid.2 levels.2
      rw [resolveAllBelow]
      cases found : results.lookup node.name with
      | none => exact rest.congr fun e => by simp [found]
      | some result =>
          have head := resolveBelow_failsWith limits node result valid.1 (levels.1 result found)
          exact (head.bind fun after _ => rest.andReturn).congr fun e => by simp [found]

end

/-- Take a forest that is accepted, and suppose that everything but its pipelines can be built from
some rows. Then its pipelines can be resolved unless, on a level that is reached, one of them asks
for a property of a sibling that has one value for each bucket, or is a moving average whose window is
too large for the memory; and this is all that can fail. -/
theorem resolve_of_accepted {limits : Limits} {nodes : List Node} {rows : List Row}
    {built : Entries Result} {created : Nat} (valid : Forest.validate nodes = .ok ())
    (ran : (buildAll limits (.all rows.toArray) [] nodes).run 0 = .ok (built, created)) :
    ((∃ results, resolve nodes built = .ok results) ↔
      ∀ level, Reaches nodes built level → ∀ node ∈ level,
        (∀ sibling, ¬ Misreads level node sibling) ∧ ¬ node.Overreaches) ∧
    ∀ e, resolve nodes built = .error e → ∃ level, Reaches nodes built level ∧ ∃ node ∈ level,
      (∃ sibling, Misreads level node sibling ∧
        e = .invalidDependency node.name sibling .shapeMismatch) ∨
      node.Overreaches ∧ e = .breakdown := by
  have costs := buildAll_costs limits nodes (.all rows.toArray) [] (below_of_validate valid)
    fun _ _ _ hit => by cases hit
  obtain ⟨evaluated, -, -⟩ := (costs 0 (Nat.zero_le _) _ _).mp ran
  have fails : FailsWith (resolve nodes built) (Fault nodes built) :=
    resolve_failsWith_of_below valid evaluated fun results levels =>
      resolveAllBelow_failsWith limits nodes results (below_of_validate valid) levels
  cases resolved : resolve nodes built with
  | error e =>
      rw [resolved] at fails
      obtain ⟨level, reached, node, member, fault⟩ := fails
      refine ⟨iff_of_false nofun fun sound => ?_, fun e' same => ?_⟩
      · obtain ⟨reads, within⟩ := sound level reached node member
        cases fault with
        | misreads misreads => exact reads _ misreads
        | overreaches overreaches => exact within overreaches
      · cases same
        refine ⟨level, reached, node, member, ?_⟩
        cases fault with
        | misreads misreads => exact .inl ⟨_, misreads, rfl⟩
        | overreaches overreaches => exact .inr ⟨overreaches, rfl⟩
  | ok results =>
      rw [resolved] at fails
      refine ⟨iff_of_true ⟨results, rfl⟩ fun level reached node member => ⟨?_, ?_⟩, nofun⟩
      · exact fun sibling misreads => fails _ ⟨level, reached, node, member, .misreads misreads⟩
      · exact fun overreaches => fails _ ⟨level, reached, node, member, .overreaches overreaches⟩

end Faults

/-! ## The peak of running totals -/

def countries : Node := ⟨"countries", "terms", .bucketing, some "country", [], []⟩

def totals : Node :=
  ⟨"totals", "cumulative_sum", .pipeline, none, [("buckets_path", .string "countries")], []⟩

def peak : Node :=
  ⟨"peak", "max_bucket", .pipeline, none, [("buckets_path", .string "totals.value")], []⟩

def landings : List Row := [[("country", .string "at")], [("country", .string "fr")]]

def landed : Entries Result :=
  [("countries", .buckets [⟨.str "at", 1, []⟩, ⟨.str "fr", 1, []⟩] none)]

theorem resolve_of_accepted_peak :
    Forest.validate [countries, totals, peak] = .ok () ∧
      (buildAll {} (.all landings.toArray) [] [countries, totals, peak]).run 0 = .ok (landed, 2) ∧
      ¬ ∃ results, resolve [countries, totals, peak] landed = .ok results := by
  have valid : Forest.validate [countries, totals, peak] = .ok () := by cbv
  have ran : (buildAll {} (.all landings.toArray) [] [countries, totals, peak]).run 0 =
      .ok (landed, 2) := by cbv
  refine ⟨valid, ran, fun resolved => ?_⟩
  have readsTotals : Reads [countries, totals, peak] peak totals
      ⟨"totals", .itself (some "value")⟩ := ⟨by cbv, by simp, rfl⟩
  have readsCountries : Reads [countries, totals, peak] totals countries
      ⟨"countries", .itself none⟩ := ⟨by cbv, by simp, rfl⟩
  have serial : Serial [countries, totals, peak] totals :=
    .parallel (by simp) (by cbv) (by cbv) readsCountries (.bucketing (by simp) rfl)
  obtain ⟨reads, -⟩ := (resolve_of_accepted valid ran).1.mp resolved _ .here peak (by simp)
  exact reads "totals" ⟨by simp, rfl, totals, "value", readsTotals, serial⟩

end Rollup
