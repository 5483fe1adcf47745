import Rollup.Answer.Aggregations
import Rollup.Proofs.Lookup

/-! # What an answer shows

The results of an answer are read back by name, on every level of it. Where the names of a level
differ, each result is found under its name. A bucket's own members are found too, except for those
that the name of a result below takes away.
-/

namespace Rollup

namespace Entries

variable {α : Type} {entries added : Entries α}

/-- Distinct names that are set hide the ones before. -/
theorem lookup_setAll (distinct : (added.map (·.1)).Nodup) (name : String) :
    (setAll entries added).lookup name = (added.lookup name).or (entries.lookup name) := by
  unfold setAll
  induction added generalizing entries with
  | nil => rfl
  | cons entry rest ih =>
      rw [List.map_cons, List.nodup_cons] at distinct
      rw [List.foldl_cons, ih distinct.2, lookup_set, lookup_cons_ite]
      by_cases same : name = entry.1
      · rw [if_pos same, if_pos same, same, lookup_eq_none_of_not_mem distinct.1]
        rfl
      · rw [if_neg same, if_neg same]

/-- Names that are there keep their places, and the others follow in order. -/
theorem names_setAll (distinct : (added.map (·.1)).Nodup) :
    (setAll entries added).map (·.1) =
      entries.map (·.1) ++ (added.map (·.1)).filter (· ∉ entries.map (·.1)) := by
  unfold setAll
  induction added generalizing entries with
  | nil => simp
  | cons entry rest ih =>
      rw [List.map_cons, List.nodup_cons] at distinct
      rw [List.foldl_cons, ih distinct.2, List.map_cons]
      by_cases there : entry.1 ∈ entries.map (·.1)
      · have kept : (set entries entry.1 entry.2).map (·.1) = entries.map (·.1) :=
          names_set_of_mem entry.2 there
        rw [List.filter_cons_of_neg (by simpa using there), kept]
      · have grown : (set entries entry.1 entry.2).map (·.1) = entries.map (·.1) ++ [entry.1] :=
          names_set_of_not_mem entry.2 there
        rw [List.filter_cons_of_pos (by simpa using there), grown, List.append_assoc,
          List.singleton_append]
        congr 2
        refine List.filter_congr fun name member => ?_
        have other : name ≠ entry.1 := fun same => distinct.1 (same ▸ member)
        simp [other]

end Entries

namespace Answer

/-- What a bucket is shown with, besides the results below it. -/
def ownMembers (bucket : Bucket) : Entries Json :=
  keyMembers bucket.key ++ [("doc_count", .ofNat bucket.count)]

/-- The object of a bucket. -/
def bucketJson (bucket : Bucket) : Json :=
  .object (Entries.setAll (ownMembers bucket) (resultsJson bucket.results))

theorem bucketsJson_eq (buckets : List Bucket) : bucketsJson buckets = buckets.map bucketJson := by
  induction buckets with
  | nil => rfl
  | cons bucket rest ih =>
      obtain ⟨key, count, results⟩ := bucket
      rw [bucketsJson, ih]
      rfl

theorem resultsJson_eq (results : Entries Result) :
    resultsJson results = results.map fun entry => (entry.1, resultJson entry.2) := by
  induction results with
  | nil => rfl
  | cons entry rest ih => rw [resultsJson, ih, List.map_cons]

/-! ## Reading back -/

/-- A member of a series under its key. -/
structure ShowsPoint (point : Key × Option Float) (json : Json) : Prop where
  key : json.member? "key" = some point.1.toJson
  text : json.member? "key_as_string" = point.1.dateText?.map .string
  value : json.member? "value" = some (.ofFloat? point.2)

mutual

/-- A value shows a result if each bucket of it, and each result in a bucket, is found where it belongs.
What a bucket is shown with besides is up to `own`. -/
def ShowsResult (own : Bucket → Json → Prop) : Result → Json → Prop
  | .buckets buckets otherCount, json =>
      json.member? "other_count" = otherCount.map .ofNat ∧
        ∃ items, json.member? "buckets" = some (.array items) ∧ ShowsBuckets own buckets items
  | .value value, json => json = valueJson value
  | .series points, json =>
      ∃ items, json.member? "buckets" = some (.array items) ∧ List.Forall₂ ShowsPoint points items

/-- One value for each bucket, in order. -/
def ShowsBuckets (own : Bucket → Json → Prop) : List Bucket → List Json → Prop
  | [], items => items = []
  | ⟨key, count, results⟩ :: buckets, items =>
      ∃ item rest, items = item :: rest ∧ own ⟨key, count, results⟩ item ∧
        ShowsResults own results item ∧ ShowsBuckets own buckets rest

/-- Each result is found under its name. -/
def ShowsResults (own : Bucket → Json → Prop) : List (String × Result) → Json → Prop
  | [], _ => True
  | (name, result) :: results, json =>
      (∃ found, json.member? name = some found ∧ ShowsResult own result found) ∧
        ShowsResults own results json

end

mutual

/-- The buckets of a result, with those inside them. -/
def bucketsOf : Result → List Bucket
  | .buckets buckets _ => bucketsWithin buckets
  | .value _ => []
  | .series _ => []

def bucketsWithin : List Bucket → List Bucket
  | [] => []
  | ⟨key, count, results⟩ :: buckets =>
      ⟨key, count, results⟩ :: (bucketsIn results ++ bucketsWithin buckets)

/-- The buckets of all results of a level, with those inside them. -/
def bucketsIn : List (String × Result) → List Bucket
  | [] => []
  | (_, result) :: results => bucketsOf result ++ bucketsIn results

end

theorem exists_of_mem_bucketsWithin {buckets : List Bucket} {bucket : Bucket}
    (h : bucket ∈ bucketsWithin buckets) :
    ∃ outer ∈ buckets, bucket = outer ∨ bucket ∈ bucketsIn outer.results := by
  induction buckets with
  | nil =>
      rw [bucketsWithin] at h
      cases h
  | cons first rest ih =>
      obtain ⟨key, count, results⟩ := first
      rw [bucketsWithin, List.mem_cons, List.mem_append] at h
      rcases h with rfl | inside | later
      · exact ⟨_, List.mem_cons_self, .inl rfl⟩
      · exact ⟨_, List.mem_cons_self, .inr inside⟩
      · obtain ⟨outer, houter, inside⟩ := ih later
        exact ⟨outer, List.mem_cons_of_mem _ houter, inside⟩

theorem exists_of_mem_bucketsIn {results : Entries Result} {bucket : Bucket}
    (h : bucket ∈ bucketsIn results) :
    ∃ name buckets otherCount, (name, Result.buckets buckets otherCount) ∈ results ∧
      ∃ outer ∈ buckets, bucket = outer ∨ bucket ∈ bucketsIn outer.results := by
  induction results with
  | nil =>
      rw [bucketsIn] at h
      cases h
  | cons entry rest ih =>
      obtain ⟨name, result⟩ := entry
      rw [bucketsIn, List.mem_append] at h
      rcases h with here | later
      · cases result with
        | buckets buckets otherCount =>
            rw [bucketsOf] at here
            exact ⟨name, buckets, otherCount, List.mem_cons_self, exists_of_mem_bucketsWithin here⟩
        | value value =>
            rw [bucketsOf] at here
            cases here
        | series points =>
            rw [bucketsOf] at here
            cases here
      · obtain ⟨name, buckets, otherCount, member, inside⟩ := ih later
        exact ⟨name, buckets, otherCount, List.mem_cons_of_mem _ member, inside⟩

/-- The names of the results in a bucket differ. -/
def Distinct (bucket : Bucket) : Prop := (bucket.results.map (·.1)).Nodup

theorem names_resultsJson (results : Entries Result) :
    (resultsJson results).map (·.1) = results.map (·.1) := by
  rw [resultsJson_eq, List.map_map]
  rfl

theorem lookup_resultsJson {results : Entries Result} {name : String} :
    (resultsJson results).lookup name = (results.lookup name).map resultJson := by
  induction results with
  | nil => rfl
  | cons entry rest ih =>
      obtain ⟨other, result⟩ := entry
      rw [resultsJson, lookup_cons_ite, lookup_cons_ite, ih]
      split <;> rfl

/-- Results that are set are there under their names. -/
theorem lookup_setAll_resultsJson {results : Entries Result}
    (distinct : (results.map (·.1)).Nodup) {entry : String × Result} (member : entry ∈ results)
    (entries : Entries Json) :
    (Entries.setAll entries (resultsJson results)).lookup entry.1 = some (resultJson entry.2) := by
  rw [Entries.lookup_setAll (by rwa [names_resultsJson]), lookup_resultsJson,
    lookup_of_mem distinct member]
  rfl

/-- A bucket's object has each result of the bucket under its name. -/
theorem member?_result {bucket : Bucket} (distinct : Distinct bucket) {entry : String × Result}
    (member : entry ∈ bucket.results) :
    (bucketJson bucket).member? entry.1 = some (resultJson entry.2) :=
  lookup_setAll_resultsJson distinct member (ownMembers bucket)

theorem showsPoint (point : Key × Option Float) :
    ShowsPoint point (.object (keyMembers point.1 ++ [("value", .ofFloat? point.2)])) := by
  unfold keyMembers
  cases written : point.1.dateText? with
  | none => exact ⟨rfl, by rw [written]; rfl, rfl⟩
  | some text => exact ⟨rfl, by rw [written]; rfl, rfl⟩

/-! ## The first level -/

section Summary

variable {summary : Summary} (distinct : (summary.results.map (·.1)).Nodup)

include distinct

theorem member?_aggregations {entry : String × Result} (member : entry ∈ summary.results) :
    (aggregations summary).member? entry.1 = some (resultJson entry.2) :=
  lookup_setAll_resultsJson distinct member []

theorem names_aggregations :
    (aggregations summary).object?.map (·.map (·.1)) = some (summary.results.map (·.1)) := by
  show some ((Entries.setAll [] _).map (·.1)) = _
  rw [Entries.names_setAll (by rwa [names_resultsJson]), names_resultsJson]
  simp

end Summary

/-! ## All levels -/

section Shows

variable (own : Bucket → Json → Prop)

mutual

/-- A result is shown exactly if what the buckets are shown with besides is as it should be. -/
theorem showsResult_iff : ∀ result : Result, (∀ bucket ∈ bucketsOf result, Distinct bucket) →
    (ShowsResult own result (resultJson result) ↔
      ∀ bucket ∈ bucketsOf result, own bucket (bucketJson bucket))
  | .buckets buckets otherCount, distinct => by
      rw [bucketsOf] at distinct ⊢
      have listed : (resultJson (.buckets buckets otherCount)).member? "buckets" =
          some (.array (buckets.map bucketJson)) := by
        rw [← bucketsJson_eq]
        cases otherCount <;> rfl
      rw [← showsBuckets_iff buckets distinct, ShowsResult]
      constructor
      · rintro ⟨-, items, found, shown⟩
        cases listed.symm.trans found
        exact shown
      · intro shown
        exact ⟨by cases otherCount <;> rfl, _, listed, shown⟩
  | .value value, _ => by
      rw [ShowsResult, resultJson, bucketsOf]
      exact iff_of_true rfl nofun
  | .series points, _ => by
      rw [ShowsResult, resultJson, bucketsOf]
      refine iff_of_true ⟨_, rfl, ?_⟩ nofun
      rw [List.forall₂_map_right_iff]
      exact List.forall₂_same.mpr fun point _ => showsPoint point

theorem showsBuckets_iff : ∀ buckets : List Bucket,
    (∀ bucket ∈ bucketsWithin buckets, Distinct bucket) →
    (ShowsBuckets own buckets (buckets.map bucketJson) ↔
      ∀ bucket ∈ bucketsWithin buckets, own bucket (bucketJson bucket))
  | [], _ => by
      rw [ShowsBuckets, bucketsWithin]
      exact iff_of_true rfl nofun
  | ⟨key, count, results⟩ :: buckets, distinct => by
      rw [bucketsWithin, List.forall_mem_cons, List.forall_mem_append] at distinct ⊢
      obtain ⟨here, inside, rest⟩ := distinct
      have results_iff := showsResults_iff results (bucketJson ⟨key, count, results⟩)
        (fun _ member => member?_result here member) inside
      rw [← showsBuckets_iff buckets rest, ← results_iff, ShowsBuckets, List.map_cons]
      constructor
      · rintro ⟨item, rest, ⟨⟩, shown⟩
        exact shown
      · intro shown
        exact ⟨_, _, rfl, shown⟩

theorem showsResults_iff : ∀ (results : List (String × Result)) (json : Json),
    (∀ entry ∈ results, json.member? entry.1 = some (resultJson entry.2)) →
    (∀ bucket ∈ bucketsIn results, Distinct bucket) →
    (ShowsResults own results json ↔ ∀ bucket ∈ bucketsIn results, own bucket (bucketJson bucket))
  | [], json, _, _ => by
      rw [ShowsResults, bucketsIn]
      exact iff_of_true trivial nofun
  | (name, result) :: results, json, found, distinct => by
      rw [bucketsIn, List.forall_mem_append] at distinct ⊢
      rw [List.forall_mem_cons] at found
      rw [← showsResult_iff result distinct.1, ← showsResults_iff results json found.2 distinct.2,
        ShowsResults]
      refine and_congr_left fun _ => ?_
      constructor
      · rintro ⟨json, same, shown⟩
        cases found.1.symm.trans same
        exact shown
      · intro shown
        exact ⟨_, found.1, shown⟩

end

end Shows

/-! ## A bucket's own members -/

/-- The names of a bucket's own members. -/
def ownNames : List String := ["key", "doc_count", "key_as_string"]

/-- A bucket is shown with its key, its count and the written form of its key, and then with its results
in order. -/
structure Whole (bucket : Bucket) (json : Json) : Prop where
  key : json.member? "key" = some bucket.key.toJson
  count : json.member? "doc_count" = some (.ofNat bucket.count)
  text : json.member? "key_as_string" = bucket.key.dateText?.map .string
  order : json.object?.map (·.map (·.1)) =
    some ((ownMembers bucket).map (·.1) ++ bucket.results.map (·.1))

/-- A bucket is shown with its own members, except for those that have the name of a result. Results
follow in order, except for those that have the name of a member. -/
structure Kept (bucket : Bucket) (json : Json) : Prop where
  key : json.member? "key" = some bucket.key.toJson ↔ "key" ∉ bucket.results.map (·.1)
  count : json.member? "doc_count" = some (.ofNat bucket.count) ↔
    "doc_count" ∉ bucket.results.map (·.1)
  text : json.member? "key_as_string" = bucket.key.dateText?.map .string ↔
    "key_as_string" ∉ bucket.results.map (·.1)
  order : json.object?.map (·.map (·.1)) =
    some ((ownMembers bucket).map (·.1) ++
      (bucket.results.map (·.1)).filter (· ∉ (ownMembers bucket).map (·.1)))

theorem lookup_ownMembers (bucket : Bucket) :
    (ownMembers bucket).lookup "key" = some bucket.key.toJson ∧
      (ownMembers bucket).lookup "doc_count" = some (.ofNat bucket.count) ∧
      (ownMembers bucket).lookup "key_as_string" = bucket.key.dateText?.map .string := by
  unfold ownMembers keyMembers
  cases bucket.key.dateText? with
  | none => exact ⟨rfl, rfl, rfl⟩
  | some text => exact ⟨rfl, rfl, rfl⟩

theorem ownMembers_subset (bucket : Bucket) : (ownMembers bucket).map (·.1) ⊆ ownNames := by
  unfold ownMembers keyMembers
  cases bucket.key.dateText? <;> simp [ownNames]

theorem resultJson_isObject (result : Result) : ∃ members, resultJson result = .object members := by
  cases result with
  | buckets buckets otherCount => cases otherCount <;> exact ⟨_, rfl⟩
  | value value => cases value <;> exact ⟨_, rfl⟩
  | series points => exact ⟨_, rfl⟩

theorem toJson_not_object (key : Key) (members : Entries Json) : key.toJson ≠ .object members := by
  cases key with
  | float x =>
      show (if x.isFinite then Json.number (.float x) else .null) ≠ _
      split <;> simp
  | _ => simp [Key.toJson, Json.ofInt]

/-- A member that is no object is kept exactly if no result has its name. -/
theorem member?_own_iff {bucket : Bucket} (distinct : Distinct bucket) {name : String}
    {value : Option Json} (own : (ownMembers bucket).lookup name = value)
    (scalar : ∀ members, value ≠ some (.object members)) :
    (bucketJson bucket).member? name = value ↔ name ∉ bucket.results.map (·.1) := by
  show (Entries.setAll _ _).lookup name = _ ↔ _
  rw [Entries.lookup_setAll (by rwa [names_resultsJson]), lookup_resultsJson, own]
  cases found : bucket.results.lookup name with
  | none =>
      refine iff_of_true rfl fun there => ?_
      obtain ⟨⟨_, result⟩, member, rfl⟩ := List.mem_map.mp there
      cases found.symm.trans (lookup_of_mem distinct member)
  | some result =>
      obtain ⟨members, is⟩ := resultJson_isObject result
      have there : name ∈ bucket.results.map (·.1) :=
        List.mem_map_of_mem (f := Prod.fst) (mem_of_lookup found)
      refine iff_of_false (fun same => scalar members ?_) (not_not.mpr there)
      rw [← is]
      exact same.symm

theorem kept_bucketJson {bucket : Bucket} (distinct : Distinct bucket) :
    Kept bucket (bucketJson bucket) := by
  obtain ⟨key, count, text⟩ := lookup_ownMembers bucket
  refine ⟨member?_own_iff distinct key fun members same => ?_,
    member?_own_iff distinct count nofun, member?_own_iff distinct text fun members same => ?_, ?_⟩
  · exact toJson_not_object bucket.key members (Option.some.inj same)
  · obtain ⟨text, -, written⟩ := Option.map_eq_some_iff.mp same
    cases written
  · show some ((Entries.setAll _ _).map (·.1)) = _
    rw [Entries.names_setAll (by rwa [names_resultsJson]), names_resultsJson]

/-- A bucket is shown whole exactly if no result in it has the name of a member. -/
theorem whole_iff {bucket : Bucket} (distinct : Distinct bucket) :
    Whole bucket (bucketJson bucket) ↔ ∀ name ∈ ownNames, name ∉ bucket.results.map (·.1) := by
  have kept := kept_bucketJson distinct
  simp only [ownNames, List.forall_mem_cons, List.not_mem_nil, false_imp_iff, implies_true, and_true]
  constructor
  · intro whole
    exact ⟨kept.key.mp whole.key, kept.count.mp whole.count, kept.text.mp whole.text⟩
  · rintro ⟨key, count, text⟩
    refine ⟨kept.key.mpr key, kept.count.mpr count, kept.text.mpr text, ?_⟩
    rw [kept.order, List.filter_eq_self.mpr]
    intro name member
    simp only [decide_eq_true_eq]
    intro own
    have reserved := ownMembers_subset bucket own
    simp only [ownNames, List.mem_cons, List.not_mem_nil, or_false] at reserved
    obtain rfl | rfl | rfl := reserved
    · exact key member
    · exact count member
    · exact text member

end Answer

end Rollup
