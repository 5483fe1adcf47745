import Rollup.Proofs.Aggregation.Dropped
import Rollup.Proofs.Bucketing.Nulls
import Rollup.Proofs.Engine.Response

/-! # The bucket of the nulls

On every level of an answer a node has one bucket for the rows without a value, and no other row is in it.
The response shows the key of this bucket as null. A bucket with values is shown so only where the key of a
histogram leaves the range of numbers.
-/

namespace Rollup.Engine

open Answer (ShowsResults bucketJson Distinct)

variable {limits : Limits} {nodes level : List Node} {rows part : List Row} {summary : Summary}
  {results inner : Entries Result} {node : Node} {buckets : List Bucket} {otherCount : Option Nat}

theorem mem_of_levelOver (reached : LevelOver nodes rows results level part inner) :
    ∀ row ∈ part, row ∈ rows := by
  induction reached with
  | top => exact fun _ member => member
  | bucket _ _ _ _ ih => exact fun row member => ih row (List.mem_of_mem_filter member)

/-! ## The bucket -/

/-- What the buckets of a node over some rows have to do with nulls. -/
structure NullsApart [Memory] (limits : Limits) (node : Node) (method : Bucketing) (field : String)
    (rows : List Row) (buckets : List Bucket) : Prop where
  /-- Nulls have one bucket at most. -/
  single : (buckets.filter (·.key.isMissing)).length ≤ 1
  /-- It counts the rows with a null and answers for them, so that no other row is in it. -/
  holds : ∀ bucket ∈ buckets, bucket.key = .missing →
    bucket.count = (rows.filter (Row.isNullAt field)).length ∧
      aggregate limits node.children (rows.filter (Row.isNullAt field)) =
        .ok ⟨bucket.count, bucket.results⟩
  /-- It is published unless the node has it dropped. -/
  published : (∃ row ∈ rows, row.isNullAt field) → (∃ bucket ∈ buckets, bucket.key = .missing) ∨
    Dropped limits method node (rows.filter (Row.isNullAt field)).length buckets.length
  /-- Other keys are written as null only where a histogram leaves the range of numbers. -/
  written : ∀ bucket ∈ buckets,
    bucket.key.toJson = .null ↔ bucket.key = .missing ∨ method.Overflows node bucket.key

theorem length_missing_le (distinct : (buckets.map (·.key)).Nodup) :
    (buckets.filter (·.key.isMissing)).length ≤ 1 := by
  have apart : ((buckets.filter (·.key.isMissing)).map (·.key)).Nodup :=
    distinct.sublist (List.filter_sublist.map _)
  have all : ∀ key ∈ (buckets.filter (·.key.isMissing)).map (·.key), key = .missing := by
    intro key member
    obtain ⟨bucket, hbucket, rfl⟩ := List.mem_map.mp member
    exact of_decide_eq_true (List.mem_filter.mp hbucket).2
  rw [List.eq_replicate_of_mem all, List.nodup_replicate, List.length_map] at apart
  exact apart

/-- The buckets of a sound site keep nulls apart. -/
theorem nullsApart_of_sound [Memory] {site : Site} (sound : site.Sound limits)
    (is : site.result = .buckets buckets otherCount)
    (read : ∀ row ∈ site.rows, ∀ entry ∈ row, entry.2.InRange) :
    ∃ method field, Method.ofName? site.node.typeName = some (.bucketing method) ∧
      site.node.field = some field ∧ NullsApart limits site.node method field site.rows buckets := by
  obtain ⟨method, kept, named, selected, -⟩ := Site.kept_of_buckets sound is
  obtain ⟨-, -, grouping, -, -, -, grouped, -⟩ :=
    (selectRows_eq_ok (childrenKnown_of_validate sound.below)).mp selected
  obtain ⟨field, required, -⟩ := bind_eq_ok.mp grouped
  have asked := Node.field_of_requireField required
  have nulls : site.rowsOf .missing = site.rows.filter (Row.isNullAt field) := by
    refine List.filter_congr fun row _ => ?_
    rw [Bool.eq_iff_iff, decide_eq_true_eq, Node.keyOf?_eq_missing named asked]
  refine ⟨method, field, named, asked, ?_, ?_, ?_, ?_⟩
  · exact length_missing_le (Site.accounts sound is).2.1
  · intro bucket member missing
    obtain ⟨count, built, evaluated, within, resolved⟩ := Site.level_of_bucket sound is member
    rw [missing, nulls] at count evaluated
    exact ⟨count, aggregate_eq_ok.mpr ⟨sound.below, built, evaluated, within, resolved, count⟩⟩
  · rintro ⟨row, member, null⟩
    have keyed := (Node.keyOf?_eq_missing named asked).mpr null
    rw [← nulls]
    exact Site.published_or_dropped sound is named member keyed
  · intro bucket member
    obtain ⟨method', grouping, group, hgroup, named', grouped, same⟩ :=
      Site.group_of_bucket sound is member
    cases named.symm.trans named'
    rw [← same]
    exact Bucketing.toJson_of_groupRows named asked grouped
      (fun row hrow value found => read row hrow _ (mem_of_lookup found)) hgroup

/-! ## The response -/

/-- The key of a bucket is shown as null if that is how it is written, unless a result has its place. -/
def KeyShown (bucket : Bucket) (json : Json) : Prop :=
  json.member? "key" = some .null ↔ bucket.key.toJson = .null ∧ "key" ∉ bucket.results.map (·.1)

theorem keyShown_bucketJson {bucket : Bucket} (distinct : Distinct bucket) :
    KeyShown bucket (bucketJson bucket) := by
  have own := (Answer.kept_bucketJson distinct).key
  by_cases taken : "key" ∈ bucket.results.map (·.1)
  · refine iff_of_false ?_ fun shown => shown.2 taken
    obtain ⟨entry, member, name⟩ := List.mem_map.mp taken
    obtain ⟨members, is⟩ := Answer.resultJson_isObject entry.2
    rw [← name, Answer.member?_result distinct member, is]
    nofun
  · rw [KeyShown, own.mpr taken, Option.some_inj, and_iff_left taken]

/-- A response shows every bucket with its key. -/
theorem keyShown_of_answers [Memory] (answers : Answers nodes summary) :
    ShowsResults KeyShown summary.results (Answer.aggregations summary) := by
  have level := answers.level
  have names : (summary.results.map (·.1)).Nodup :=
    level.names ▸ Forest.names_of_validate level.valid
  have distinct : ∀ bucket ∈ Answer.bucketsIn summary.results, Distinct bucket := fun bucket member => by
    obtain ⟨-, -, -, distinct⟩ := Level.names_within nodes level bucket member
    exact distinct
  exact (Answer.showsResults_iff KeyShown summary.results _
    (fun _ member => Answer.member?_aggregations names member) distinct).mpr
      fun bucket member => keyShown_bucketJson (distinct bucket member)

/-- On every level of an answer nulls have a bucket of their own. The rows that are counted there are those
without a value in the column, and they are dropped only as the node asks. The response shows a key as null
if it is the key of this bucket, and else exactly if it is the key of a histogram that is not finite, each
unless a result in the bucket is named like the key. -/
theorem nulls_apart [Memory] (answered : aggregate limits nodes rows = .ok summary)
    (read : ∀ row ∈ rows, ∀ entry ∈ row, entry.2.InRange) :
    ShowsResults KeyShown summary.results (Answer.aggregations summary) ∧
      ∀ level part results, LevelOver nodes rows summary.results level part results →
        ∀ node ∈ level, ∀ buckets otherCount,
          results.lookup node.name = some (.buckets buckets otherCount) →
          ∃ method field, Method.ofName? node.typeName = some (.bucketing method) ∧
            node.field = some field ∧ NullsApart limits node method field part buckets := by
  constructor
  · exact keyShown_of_answers (.rows answered)
  · intro level part results reached node member buckets otherCount found
    obtain ⟨count, inside⟩ := answer_of_levelOver answered reached
    have sound := sound_of_aggregate inside member (mem_of_lookup found) .refl
    exact nullsApart_of_sound sound rfl fun row hrow => read row (mem_of_levelOver reached row hrow)

/-! ## A depth with a key beyond all numbers -/

def depths : Node :=
  ⟨"depths", "histogram", .bucketing, some "depth",
    [("interval", .number (.float 1e308)), ("offset", .number (.float 1e308))], []⟩

def sounding : Row := [("depth", .number (.float (-5e307)))]

def unsounded : Row := [("depth", .null)]

def depthBuckets : List Bucket := [⟨.float (-Binary64.infinity), 1, []⟩, ⟨.missing, 1, []⟩]

theorem group_depths : Bucketing.histogram.groupRows depths {} [sounding, unsounded] =
    .ok ⟨[(.float (-Binary64.infinity), [sounding]), (.missing, [unsounded])], 0⟩ := by
  have seen : (Bucketing.histogram.group depths (.all #[sounding, unsounded]) {}).toOption.map
      (fun grouping => (grouping.groups, grouping.folded)) =
        some ([(.float (-Binary64.infinity), [⟨0, by decide⟩]), (.missing, [⟨1, by decide⟩])], 0) := by
    decide +kernel
  have rows := Bucketing.histogram.groupRows_toList depths {} (.all #[sounding, unsounded])
  cases grouped : Bucketing.histogram.group depths (.all #[sounding, unsounded]) {} with
  | error fault =>
      rw [grouped] at seen
      cases seen
  | ok grouping =>
      obtain ⟨groups, folded⟩ := grouping
      rw [grouped] at seen rows
      obtain ⟨rfl, rfl⟩ := Prod.mk.inj (Option.some.inj seen)
      exact rows

theorem aggregate_depths :
    aggregate {} [depths] [sounding, unsounded] = .ok ⟨2, [("depths", .buckets depthBuckets none)]⟩ := by
  have cut (x : Float) (present null : List Row) :
      ([⟨.float x, present, []⟩, ⟨.missing, null, []⟩], none) =
        Selection.cut Bucketing.histogram.defaultOrder none 0
          [⟨.float x, present, []⟩, ⟨.missing, null, []⟩] := by cbv
  have selected : selectRows {} .histogram depths [sounding, unsounded] =
      .ok ([⟨.float (-Binary64.infinity), [sounding], []⟩, ⟨.missing, [unsounded], []⟩], none) :=
    (selectRows_eq_ok (childrenKnown_of_validate rfl)).mpr
      ⟨none, none, _, _, rfl, rfl, group_depths, .cons rfl (.cons rfl .nil), cut ..⟩
  have evaluated : evaluate {} [sounding, unsounded] depths = .ok (.buckets depthBuckets none) :=
    evaluate_buckets_iff.mpr
      ⟨.histogram, _, rfl, selected, .cons ⟨rfl, rfl, rfl⟩ (.cons ⟨rfl, rfl, rfl⟩ .nil)⟩
  have valid : Forest.validate [depths] = .ok () := by decide +kernel
  refine aggregate_eq_ok.mpr ⟨valid, [("depths", .buckets depthBuckets none)], ?_, ?_, ?_, rfl⟩
  · rw [evaluateAll_eq, mapM_eq_ok]
    exact .cons (by rw [evaluated]; rfl) .nil
  · decide
  · rfl

/-- The present depth is shown as null too. -/
theorem nulls_apart_depths :
    aggregate {} [depths] [sounding, unsounded] = .ok ⟨2, [("depths", .buckets depthBuckets none)]⟩ ∧
      (∀ row ∈ [sounding, unsounded], ∀ entry ∈ row, entry.2.InRange) ∧
      NullsApart {} depths .histogram "depth" [sounding, unsounded] depthBuckets ∧
      (Key.float (-Binary64.infinity)).toJson = .null ∧
      ShowsResults KeyShown [("depths", .buckets depthBuckets none)]
        (Answer.aggregations ⟨2, [("depths", .buckets depthBuckets none)]⟩) := by
  have read : ∀ row ∈ [sounding, unsounded], ∀ entry ∈ row, entry.2.InRange := by
    have finite : (-5e307 : Float).isFinite := by decide +kernel
    simp [sounding, unsounded, Json.InRange, Json.number?, Number.InRange, finite]
  have null : (Key.float (-Binary64.infinity)).toJson = .null :=
    Key.toJson_eq_null.mpr (.inr ⟨_, rfl, by decide +kernel⟩)
  obtain ⟨shown, apart⟩ := nulls_apart aggregate_depths read
  obtain ⟨method, field, named, asked, apart⟩ :=
    apart _ _ _ .top depths List.mem_cons_self depthBuckets none rfl
  cases named
  cases asked
  exact ⟨aggregate_depths, read, apart, null, shown⟩

end Rollup.Engine
