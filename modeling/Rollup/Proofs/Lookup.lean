import Mathlib
import Rollup.Entries

/-! # Looking up in lists of pairs

When no key repeats, looking a key up finds every pair of the list, and setting pairs one after another
keeps all of them.
-/

namespace Rollup

variable {κ α : Type} [BEq κ] [LawfulBEq κ]

theorem mem_of_lookup {pairs : List (κ × α)} {key : κ} {value : α}
    (h : pairs.lookup key = some value) : (key, value) ∈ pairs := by
  obtain ⟨before, after, rfl, -⟩ := List.lookup_eq_some_iff.mp h
  simp

theorem lookup_eq_none_of_not_mem {pairs : List (κ × α)} {key : κ}
    (h : key ∉ pairs.map (·.1)) : pairs.lookup key = none := by
  rw [List.lookup_eq_none_iff]
  intro pair member
  rw [bne_iff_ne]
  rintro rfl
  exact h (List.mem_map_of_mem member)

variable [DecidableEq κ]

theorem lookup_cons_ite (key : κ) (first : κ × α) (rest : List (κ × α)) :
    (first :: rest).lookup key = if key = first.1 then some first.2 else rest.lookup key := by
  rw [List.lookup_cons]
  by_cases same : key = first.1
  · simp [same]
  · simp [same, beq_eq_false_iff_ne.mpr same]

theorem lookup_of_mem {pairs : List (κ × α)} (distinct : (pairs.map (·.1)).Nodup) {key : κ}
    {value : α} (h : (key, value) ∈ pairs) : pairs.lookup key = some value := by
  induction pairs with
  | nil => cases h
  | cons first rest ih =>
      simp only [List.map_cons, List.nodup_cons] at distinct
      rw [lookup_cons_ite]
      rcases List.mem_cons.mp h with rfl | later
      · rw [if_pos rfl]
      · have different : key ≠ first.1 := fun same =>
          distinct.1 (same ▸ List.mem_map_of_mem (f := Prod.fst) later)
        rw [if_neg different]
        exact ih distinct.2 later

/-! ## Setting entries -/

namespace Entries

variable {α : Type} {entries added : Entries α}

theorem set_of_not_mem {name : String} (value : α) (new : name ∉ entries.map (·.1)) :
    set entries name value = entries ++ [(name, value)] := by
  induction entries with
  | nil => rfl
  | cons entry rest ih =>
      obtain ⟨first, old⟩ := entry
      rw [List.map_cons, List.mem_cons, not_or] at new
      rw [set, if_neg (Ne.symm new.1), ih new.2, List.cons_append]

/-- Entries with new and distinct names go to the end. -/
theorem setAll_of_nodup (distinct : ((entries ++ added).map (·.1)).Nodup) :
    setAll entries added = entries ++ added := by
  induction added generalizing entries with
  | nil => exact (List.append_nil entries).symm
  | cons entry rest ih =>
      have new : entry.1 ∉ entries.map (·.1) := by
        rw [List.map_append, List.map_cons, List.nodup_append] at distinct
        intro old
        exact distinct.2.2 _ old _ List.mem_cons_self rfl
      have step : setAll entries (entry :: rest) = setAll (entries ++ [entry]) rest := by
        rw [← set_of_not_mem entry.2 new]
        rfl
      rw [step, ih (by simpa using distinct), List.append_assoc, List.singleton_append]

theorem names_set_subset (entries : Entries α) (name : String) (value : α) :
    (set entries name value).map (·.1) ⊆ name :: entries.map (·.1) := by
  by_cases there : name ∈ entries.map (·.1)
  · have kept : (set entries name value).map (·.1) = entries.map (·.1) :=
      names_set_of_mem value there
    rw [kept]
    exact List.subset_cons_self _ _
  · rw [set_of_not_mem value there, List.map_append]
    simp

theorem names_setAll_subset (entries added : Entries α) :
    (setAll entries added).map (·.1) ⊆ entries.map (·.1) ++ added.map (·.1) := by
  induction added generalizing entries with
  | nil => exact List.subset_append_left _ _
  | cons entry rest ih =>
      intro name member
      have grown := List.mem_append.mp (ih (set entries entry.1 entry.2) member)
      rw [List.map_cons, List.mem_append, List.mem_cons]
      rcases grown with early | late
      · rcases List.mem_cons.mp (names_set_subset entries entry.1 entry.2 early) with new | old
        · exact .inr (.inl new)
        · exact .inl old
      · exact .inr (.inr late)

end Entries

end Rollup
