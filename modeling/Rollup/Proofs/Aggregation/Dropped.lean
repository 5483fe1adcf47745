import Rollup.Proofs.Aggregation.Accounting

/-! # Rows whose bucket is not published

A row that is counted under a key has a bucket, with two exceptions. Its group may have fewer rows than the
node asks for, or there are as many buckets as the node asks for without it.
-/

namespace Rollup

/-- Why so many rows of a key may have no bucket among those that are published. -/
inductive Dropped (limits : Limits) (method : Bucketing) (node : Node) (count published : Nat) : Prop where
  /-- They are fewer than a group must have. -/
  | few {least : Nat} : method ≠ .terms → node.minCount = .ok least → count < least →
      Dropped limits method node count published
  /-- Buckets are cut off, and those that are left are as many as they may be. -/
  | cut {given : Option Nat} {size : Nat} : node.natParam "size" = .ok given →
      (given <|> method.defaultSize limits) = some size → published = size →
      Dropped limits method node count published

namespace Scheme

variable {ι : Type} {scheme : Scheme} {values : List (ι × Json)} {grouping : Grouping ι}

/-- The rows of a key have a group, or they are fewer than a group must have. -/
theorem mem_or_few (h : scheme.group values = .ok grouping) {value : ι × Json} (member : value ∈ values)
    {key : Key} (hkey : scheme.key? value.2 = some key) :
    key ∈ grouping.groups.map (·.1) ∨
      (values.filter fun value => scheme.key? value.2 = some key).length < scheme.minCount := by
  obtain ⟨groups, made, rfl⟩ := map_eq_ok.mp h
  obtain ⟨⟨_, ids⟩, formed, rfl⟩ := List.mem_map.mp (mem_of_key? made member hkey)
  have own := rows_of_mem made formed
  refine (Nat.lt_or_ge _ scheme.minCount).symm.imp_left fun enough => ?_
  refine List.mem_map_of_mem (f := Prod.fst) (List.mem_filter.mpr ⟨formed, decide_eq_true ?_⟩)
  rwa [own, List.length_map]

end Scheme

theorem Histogram.minCount_of_ofNode {node : Node} {params : Params} (h : Params.ofNode node = .ok params) :
    node.minCount = .ok params.minCount := by
  obtain ⟨_ | interval, -, h⟩ := bind_eq_ok.mp h
  · cases h
  simp only at h
  split at h
  · cases h
  obtain ⟨offset, -, h⟩ := bind_eq_ok.mp h
  obtain ⟨least, counted, h⟩ := bind_eq_ok.mp h
  obtain ⟨bounds, -, h⟩ := bind_eq_ok.mp h
  cases h
  exact counted

section

variable {limits : Limits} {method : Bucketing} {node : Node} {rows : List Row} {grouping : Grouping Row}
  {key : Key}

theorem Bucketing.mem_or_few (is : Method.ofName? node.typeName = some (.bucketing method))
    (grouped : method.groupRows node limits rows = .ok grouping) {row : Row} (member : row ∈ rows)
    (keyed : node.keyOf? row = some key) : key ∈ grouping.groups.map (·.1) ∨
      method ≠ .terms ∧ ∃ least, node.minCount = .ok least ∧
        (rows.filter fun row => node.keyOf? row = some key).length < least := by
  obtain ⟨field, scheme, valueOf, asked, grouped, keys⟩ := groupRows_eq_ok is grouped
  have placed := List.mem_map_of_mem (f := fun row => (row, valueOf row)) member
  refine (Scheme.mem_or_few grouped placed ((keys row).trans keyed)).imp_right fun few => ?_
  rw [List.filter_map, List.length_map] at few
  simp only [Function.comp_def, keys] at few
  cases method with
  | terms =>
      cases asked
      exact absurd few (Nat.not_lt_zero _)
  | histogram =>
      obtain ⟨params, made, asked⟩ := bind_eq_ok.mp asked
      cases asked
      exact ⟨nofun, params.minCount, Histogram.minCount_of_ofNode made, few⟩
  | dateHistogram =>
      obtain ⟨interval, -, asked⟩ := bind_eq_ok.mp asked
      obtain ⟨least, counted, asked⟩ := bind_eq_ok.mp asked
      cases asked
      exact ⟨nofun, least, counted, few⟩

/-- Cutting keeps all candidates, or as many as there may be. -/
theorem Selection.cut_all_or_size {ι : Type} (order : BucketOrder) (size : Option Nat) (folded : Nat)
    (candidates : List (Candidate ι)) :
    (Selection.cut order size folded candidates).1.Perm candidates ∨
      size = some (Selection.cut order size folded candidates).1.length := by
  have sorted : (Selection.sorted order candidates).Perm candidates := List.mergeSort_perm candidates _
  rw [Selection.cut_eq]
  cases size with
  | none => exact .inl sorted
  | some size =>
      rw [Option.elim_some, List.length_take]
      rcases Nat.le_total (Selection.sorted order candidates).length size with room | full
      · left
        rwa [List.take_of_length_le room]
      · right
        rw [Nat.min_eq_left full]

/-- A key of a row is kept, or its rows are dropped. -/
theorem kept_or_dropped (known : node.ChildrenKnown)
    (is : Method.ofName? node.typeName = some (.bucketing method)) {kept : List (Candidate Row)}
    {other : Option Nat} (h : selectRows limits method node rows = .ok (kept, other)) {row : Row}
    (member : row ∈ rows) (keyed : node.keyOf? row = some key) : key ∈ kept.map (·.key) ∨
      Dropped limits method node (rows.filter fun row => node.keyOf? row = some key).length kept.length := by
  obtain ⟨order, size, grouping, measured, -, sized, grouped, each, last⟩ :=
    (selectRows_eq_ok known).mp h
  rcases Bucketing.mem_or_few is grouped member keyed with grouped | ⟨other, least, counted, few⟩
  · have all := Selection.cut_all_or_size (order.getD method.defaultOrder)
      (size <|> method.defaultSize limits) grouping.folded measured
    rw [← last] at all
    rcases all with perm | full
    · rw [← (keys_of_measured each).1] at grouped
      exact .inl ((perm.map _).mem_iff.mpr grouped)
    · exact .inr (.cut sized full rfl)
  · exact .inr (.few other counted few)

end

/-- A row of a sound site has a bucket of its key, or the rows of this key are dropped. -/
theorem Site.published_or_dropped [Memory] {limits : Limits} {site : Site} (sound : site.Sound limits)
    {buckets : List Bucket} {other : Option Nat} (is : site.result = .buckets buckets other)
    {method : Bucketing} (named : Method.ofName? site.node.typeName = some (.bucketing method)) {row : Row}
    (member : row ∈ site.rows) {key : Key} (keyed : site.node.keyOf? row = some key) :
    (∃ bucket ∈ buckets, bucket.key = key) ∨
      Dropped limits method site.node (site.rowsOf key).length buckets.length := by
  obtain ⟨method', kept, named', selected, keys, -⟩ := kept_of_buckets sound is
  cases named.symm.trans named'
  have length : buckets.length = kept.length := by simpa using congrArg List.length keys
  rw [length, ← List.mem_map, keys]
  exact kept_or_dropped (childrenKnown_of_validate sound.below) named selected member keyed

end Rollup
