import Rollup.Proofs.Aggregation.Site

/-! # Every row is accounted for

Each row of a scope is in a bucket or counted among the others, and none twice. The others are
mentioned exactly if some bucket that the node forms is not among those it shows.
-/

namespace Rollup

/-- A bucket that a node forms over some rows: some row is counted under its key, or grouping makes it
to fill a gap. -/
def Node.Forms (node : Node) (limits : Limits) (rows : List Row) (key : Key) : Prop :=
  (∃ row ∈ rows, node.keyOf? row = some key) ∨
    ∃ method grouping, Method.ofName? node.typeName = some (.bucketing method) ∧
      method.group node (.all rows.toArray) limits = .ok grouping ∧ key ∈ grouping.groups.map (·.1)

section

variable {limits : Limits} {method : Bucketing} {node : Node} {rows : List Row}

theorem forms_iff (is : Method.ofName? node.typeName = some (.bucketing method))
    {grouping : Grouping Row} (grouped : method.groupRows node limits rows = .ok grouping)
    (key : Key) : node.Forms limits rows key ↔
      (∃ row ∈ rows, node.keyOf? row = some key) ∨ key ∈ grouping.groups.map (·.1) := by
  refine or_congr_right ?_
  have same := method.groupRows_toList node limits (.all rows.toArray)
  rw [RowSet.toList_all, grouped] at same
  obtain ⟨found, group, mapped⟩ := map_eq_ok.mp same.symm
  have keys : grouping.groups.map (·.1) = found.groups.map (·.1) := by
    rw [← mapped]
    simp [Grouping.mapRows, Groups.mapRows, Function.comp_def]
  rw [keys]
  constructor
  · rintro ⟨other, found', is', group', member⟩
    cases is.symm.trans is'
    cases group.symm.trans group'
    exact member
  · exact fun member => ⟨method, found, is, group, member⟩

/-- Candidates that are measured are the groups, one for one. -/
theorem keys_of_measured {names : List String} {groups : Groups Row}
    {measured : List (Candidate Row)}
    (each : List.Forall₂ (fun group candidate =>
      names.foldlM (Selection.measure Metric.ofRows node) (.ofGroup group) = .ok candidate)
      groups measured) :
    measured.map (·.key) = groups.map (·.1) ∧ (measured.map Candidate.count).sum = groups.size := by
  induction each with
  | nil => exact ⟨rfl, rfl⟩
  | cons h rest ih =>
      obtain ⟨key, ids, -⟩ := Selection.lookup_measured h
      simp only [List.map_cons, List.sum_cons, ih.1, ih.2, key, Candidate.count, ids,
        Candidate.ofGroup, Groups.size, List.flatMap_cons, List.length_append, and_self]

/-- A key is lost if it is held by no group at all, or by one that is not kept. -/
theorem lost_iff {keys kept rest : List Key} (split : (kept ++ rest).Perm keys) (distinct : keys.Nodup)
    (held : Key → Prop) : ((∃ key, held key ∧ key ∉ keys) ∨ rest ≠ []) ↔
      ∃ key, (held key ∨ key ∈ keys) ∧ key ∉ kept := by
  constructor
  · rintro (⟨key, hkey, lost⟩ | some)
    · exact ⟨key, .inl hkey, fun member => lost (split.subset (List.mem_append_left _ member))⟩
    · obtain ⟨key, member⟩ := List.exists_mem_of_ne_nil _ some
      have apart := (List.nodup_append.mp (split.nodup_iff.mpr distinct)).2.2
      exact ⟨key, .inr (split.subset (List.mem_append_right _ member)),
        fun both => apart key both key member rfl⟩
  · rintro ⟨key, formed, lost⟩
    by_cases hkey : key ∈ keys
    · have dropped := (List.mem_append.mp (split.symm.subset hkey)).resolve_left lost
      exact .inr (List.ne_nil_of_mem dropped)
    · exact .inl ⟨key, formed.resolve_right hkey, hkey⟩

/-- Selecting keeps some groups and counts the rows of all others. -/
theorem selectRows_accounts (known : node.ChildrenKnown)
    (is : Method.ofName? node.typeName = some (.bucketing method)) {kept : List (Candidate Row)}
    {other : Option Nat} (h : selectRows limits method node rows = .ok (kept, other)) :
    (kept.map Candidate.count).sum + other.getD 0 = rows.length ∧ (kept.map (·.key)).Nodup ∧
      (other.isSome ↔ ∃ key, node.Forms limits rows key ∧ key ∉ kept.map (·.key)) := by
  obtain ⟨order, size, grouping, measured, -, -, grouped, each, last⟩ :=
    (selectRows_eq_ok known).mp h
  obtain ⟨rest, perm, others⟩ := Selection.perm_cut (order.getD method.defaultOrder)
    (size <|> method.defaultSize limits) grouping.folded measured
  rw [← last] at perm others
  dsimp only at perm others
  obtain ⟨keys, counts⟩ := keys_of_measured each
  have split_keys : (kept.map (·.key) ++ rest.map (·.key)).Perm (grouping.groups.map (·.1)) := by
    rw [← keys, ← List.map_append]
    exact perm.map _
  have total : (kept.map Candidate.count).sum + (rest.map Candidate.count).sum =
      grouping.groups.size := by
    rw [← counts, ← List.sum_append, ← List.map_append]
    exact (perm.map _).sum_eq
  have all := Bucketing.size_groupRows is grouped
  have distinct := (Bucketing.ordered_groupRows grouped).nodup
  refine ⟨?_, (List.nodup_append.mp (split_keys.nodup_iff.mpr distinct)).1, ?_⟩
  · rw [others, Selection.getD_otherCount]
    omega
  · have dropped : other.isSome ↔ 0 < grouping.folded ∨ rest.map (·.key) ≠ [] := by
      rw [others]
      split <;> simp_all
    have folded : 0 < grouping.folded ↔ ∃ key,
        (∃ row ∈ rows, node.keyOf? row = some key) ∧ key ∉ grouping.groups.map (·.1) := by
      rw [Bucketing.folded_pos_groupRows is grouped]
      constructor
      · rintro ⟨row, hrow, key, hkey, lost⟩
        exact ⟨key, ⟨row, hrow, hkey⟩, lost⟩
      · rintro ⟨key, ⟨row, hrow, hkey⟩, lost⟩
        exact ⟨row, hrow, key, hkey, lost⟩
    simp only [dropped, folded, forms_iff is grouped]
    exact lost_iff split_keys distinct fun key => ∃ row ∈ rows, node.keyOf? row = some key

end

/-- The buckets of a sound site are the candidates that were kept, one for one. -/
theorem Site.kept_of_buckets [Memory] {limits : Limits} {site : Site} (sound : site.Sound limits)
    {buckets : List Bucket} {other : Option Nat} (is : site.result = .buckets buckets other) :
    ∃ method kept, Method.ofName? site.node.typeName = some (.bucketing method) ∧
      selectRows limits method site.node site.rows = .ok (kept, other) ∧
      buckets.map (·.key) = kept.map (·.key) ∧ buckets.map (·.count) = kept.map Candidate.count := by
  obtain ⟨built, evaluated, -, each⟩ := sound.resolved buckets other is
  obtain ⟨method, kept, named, selected, made⟩ := evaluate_buckets_iff.mp evaluated
  exact ⟨method, kept, named, selected,
    (map_eq_of_related each fun _ _ h => h.1).trans (map_eq_of_related made fun _ _ h => h.1),
    (map_eq_of_related each fun _ _ h => h.2.1).trans (map_eq_of_related made fun _ _ h => h.2.1)⟩

/-- The buckets of a sound site account for all its rows. -/
theorem Site.accounts [Memory] {limits : Limits} {site : Site} (sound : site.Sound limits)
    {buckets : List Bucket} {other : Option Nat} (is : site.result = .buckets buckets other) :
    (buckets.map (·.count)).sum + other.getD 0 = site.count ∧ (buckets.map (·.key)).Nodup ∧
      (other.isSome ↔
        ∃ key, site.node.Forms limits site.rows key ∧ key ∉ buckets.map (·.key)) := by
  obtain ⟨method, kept, named, selected, keys, counts⟩ := Site.kept_of_buckets sound is
  rw [keys, counts, sound.counted]
  exact selectRows_accounts (childrenKnown_of_validate sound.below) named selected

end Rollup
