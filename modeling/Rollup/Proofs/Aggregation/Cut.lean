import Rollup.Proofs.Aggregation.Candidates

/-! # Cutting off candidates

Sorting and cutting lose no candidate: each one is kept or counted among the others. What is kept is
a group with all rows of its key, and what it knows of its metrics is computed of these rows.
-/

namespace Rollup

variable {ι : Type}

namespace Selection

/-- Candidates in the order of buckets. -/
def sorted (order : BucketOrder) (candidates : List (Candidate ι)) : List (Candidate ι) :=
  candidates.mergeSort fun a b => (order.compare a b).isLE

theorem cut_eq (order : BucketOrder) (size : Option Nat) (folded : Nat)
    (candidates : List (Candidate ι)) :
    cut order size folded candidates =
      (size.elim (sorted order candidates) (sorted order candidates).take,
        if 0 < folded ∨ size.elim [] (sorted order candidates).drop ≠ [] then
          some (folded + ((size.elim [] (sorted order candidates).drop).map Candidate.count).sum)
        else none) := by
  simp only [cut, sorted, List.length_flatMap, List.isEmpty_iff]
  rfl

/-- The count of the others is that of all rows that are not kept, mentioned or not. -/
theorem getD_otherCount (folded : Nat) (rest : List (Candidate ι)) :
    (if 0 < folded ∨ rest ≠ [] then some (folded + (rest.map Candidate.count).sum)
      else none).getD 0 = folded + (rest.map Candidate.count).sum := by
  split
  · rfl
  · rename_i nothing
    simp only [not_or, not_not, Nat.not_lt, Nat.le_zero] at nothing
    rw [nothing.1, nothing.2]
    rfl

/-- Where there is room for all candidates none is cut off. -/
theorem cut_of_length_le (order : BucketOrder) {size : Nat} (folded : Nat)
    {candidates : List (Candidate ι)} (enough : candidates.length ≤ size) :
    cut order (some size) folded candidates =
      (sorted order candidates, if 0 < folded then some folded else none) := by
  have whole : (sorted order candidates).length ≤ size := by
    rwa [sorted, List.length_mergeSort]
  rw [cut_eq, Option.elim_some, Option.elim_some, List.take_of_length_le whole,
    List.drop_of_length_le whole]
  simp

/-- Each group becomes a candidate that is kept or cut off. -/
theorem perm_cut (order : BucketOrder) (size : Option Nat) (folded : Nat)
    (candidates : List (Candidate ι)) :
    ∃ rest, ((cut order size folded candidates).1 ++ rest).Perm candidates ∧
      (cut order size folded candidates).2 =
        if 0 < folded ∨ rest ≠ [] then some (folded + (rest.map Candidate.count).sum) else none := by
  refine ⟨size.elim [] (sorted order candidates).drop, ?_, by rw [cut_eq]⟩
  rw [cut_eq]
  have perm : (sorted order candidates).Perm candidates := List.mergeSort_perm candidates _
  cases size with
  | none => simpa using perm
  | some n => simpa using perm

end Selection

variable {limits : Limits} {method : Bucketing} {node : Node} {rows : List Row}

/-- Selecting groups the rows, measures every group, and cuts. -/
theorem selectRows_eq_ok (known : node.ChildrenKnown) {kept : List (Candidate Row)}
    {other : Option Nat} :
    selectRows limits method node rows = .ok (kept, other) ↔
      ∃ order size grouping measured,
        BucketOrder.ofNode? node = .ok order ∧ node.natParam "size" = .ok size ∧
        method.groupRows node limits rows = .ok grouping ∧
        List.Forall₂ (fun group candidate =>
          (order.getD method.defaultOrder).metricChildren.foldlM
            (Selection.measure Metric.ofRows node) (.ofGroup group) = .ok candidate)
          grouping.groups measured ∧
        (kept, other) = Selection.cut (order.getD method.defaultOrder)
          (size <|> method.defaultSize limits) grouping.folded measured := by
  unfold selectRows Selection.select Selection.among
  simp only [bind_eq_ok, Selection.measures_eq_ok known, List.forall₂_map_left_iff]
  constructor
  · rintro ⟨order, asked, size, sized, grouping, grouped, measured, each, last⟩
    cases last
    exact ⟨order, size, grouping, measured, asked, sized, grouped, each, rfl⟩
  · rintro ⟨order, size, grouping, measured, asked, sized, grouped, each, last⟩
    exact ⟨order, asked, size, sized, grouping, grouped, measured, each, congrArg _ last.symm⟩

section Kept

variable {kept : List (Candidate Row)} {other : Option Nat} {candidate : Candidate Row}

/-- A candidate that is kept is a group, measured. -/
theorem group_of_selectRows (known : node.ChildrenKnown)
    (h : selectRows limits method node rows = .ok (kept, other)) (member : candidate ∈ kept) :
    ∃ (grouping : Grouping Row) (names : List String), method.groupRows node limits rows = .ok grouping ∧
      ∃ group ∈ grouping.groups,
        names.foldlM (Selection.measure Metric.ofRows node) (.ofGroup group) = .ok candidate := by
  obtain ⟨order, size, grouping, measured, -, -, grouped, each, last⟩ :=
    (selectRows_eq_ok known).mp h
  refine ⟨grouping, (order.getD method.defaultOrder).metricChildren, grouped, ?_⟩
  have hmeasured : candidate ∈ measured := by
    obtain ⟨rest, perm, -⟩ := Selection.perm_cut (order.getD method.defaultOrder)
      (size <|> method.defaultSize limits) grouping.folded measured
    rw [← last] at perm
    exact perm.subset (List.mem_append_left _ member)
  exact exists_item (mapM_eq_ok.mpr each) hmeasured

/-- A kept candidate has all rows of its key, in their order. -/
theorem ids_of_selectRows (known : node.ChildrenKnown)
    (is : Method.ofName? node.typeName = some (.bucketing method))
    (h : selectRows limits method node rows = .ok (kept, other)) (member : candidate ∈ kept) :
    candidate.ids = rows.filter fun row => node.keyOf? row = some candidate.key := by
  obtain ⟨grouping, names, grouped, group, hgroup, measured⟩ := group_of_selectRows known h member
  obtain ⟨key, ids, -⟩ := Selection.lookup_measured measured
  rw [ids, key]
  exact Bucketing.rows_of_groupRows is grouped hgroup

/-- What a kept candidate knows of its metric children is what they compute of its rows. -/
theorem metrics_of_selectRows (known : node.ChildrenKnown)
    (h : selectRows limits method node rows = .ok (kept, other)) (member : candidate ∈ kept)
    {name : String} {value : Value} (hit : candidate.metrics.lookup name = some value) :
    ∃ metric child, node.metricChild? name = some (metric, child) ∧
      metric.ofRows child candidate.ids = .ok value := by
  obtain ⟨grouping, names, -, group, -, measured⟩ := group_of_selectRows known h member
  obtain ⟨-, ids, metrics⟩ := Selection.lookup_measured measured
  rw [metrics] at hit
  split at hit
  case h_2 => cases hit
  case h_1 metric child asked =>
      have found : node.metricChild? name = some (metric, child) := by
        by_contra missed
        split at asked
        · exact missed asked
        · cases asked
      refine ⟨metric, child, found, ?_⟩
      rw [ids]
      cases computed : metric.ofRows child group.2 with
      | error e =>
          rw [Candidate.ofGroup, computed] at hit
          cases hit
      | ok other =>
          rw [Candidate.ofGroup, computed] at hit
          cases hit
          exact computed

end Kept

end Rollup
