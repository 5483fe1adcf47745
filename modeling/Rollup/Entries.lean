/-! # Ordered entries

Names paired with values, in the order in which each name first appeared. Objects, rows and
tables of named results share this shape. Lookup is `List.lookup`; this module adds the two
updates, and every update keeps the names distinct when they were distinct before.
-/

namespace Rollup

/-- Values by name, in order of first appearance. -/
abbrev Entries (α : Type) := List (String × α)

namespace Entries

variable {α β : Type}

/-- Set a name's value: an existing name keeps its place, a new one goes to the end. -/
def set : Entries α → String → α → Entries α
  | [], name, value => [(name, value)]
  | (n, v) :: rest, name, value =>
      if n = name then (n, value) :: rest else (n, v) :: set rest name value

/-- Drop every entry of a name. -/
def erase (entries : Entries α) (name : String) : Entries α :=
  entries.filter (fun entry => entry.1 ≠ name)

/-- Set several names one after another. -/
def setAll (entries added : Entries α) : Entries α :=
  added.foldl (fun acc entry => set acc entry.1 entry.2) entries

/-- Entries from a list in which a name may repeat: its last value wins, at its first place. -/
def ofList (entries : List (String × α)) : Entries α := setAll [] entries

def names (entries : Entries α) : List String := entries.map (·.1)

/-- Whether the name has an entry. -/
def has (entries : Entries α) (name : String) : Bool := (entries.lookup name).isSome

/-- Entries in ascending order of name. -/
def sorted (entries : Entries α) : Entries α :=
  entries.mergeSort (fun a b => decide (a.1 ≤ b.1))

theorem lookup_set (entries : Entries α) (name other : String) (value : α) :
    (set entries name value).lookup other =
      if other = name then some value else entries.lookup other := by
  induction entries with
  | nil =>
      by_cases h : other = name
      · simp [set, h]
      · simp [set, List.lookup_cons, beq_eq_false_iff_ne.mpr h, h]
  | cons entry rest ih =>
      obtain ⟨n, v⟩ := entry
      by_cases hn : n = name
      · subst hn
        by_cases ho : other = n
        · simp [set, ho]
        · simp [set, List.lookup_cons, beq_eq_false_iff_ne.mpr ho, ho]
      · by_cases ho : other = n
        · subst ho; simp [set, hn]
        · simp [set, hn, List.lookup_cons, beq_eq_false_iff_ne.mpr ho, ih]

theorem names_set_of_mem {entries : Entries α} {name : String} (value : α)
    (h : name ∈ names entries) : names (set entries name value) = names entries := by
  induction entries with
  | nil => simp [names] at h
  | cons entry rest ih =>
      obtain ⟨n, v⟩ := entry
      by_cases hn : n = name
      · simp [set, names, hn]
      · have : name ∈ names rest := by
          simpa [names, Ne.symm hn, eq_comm] using h
        simpa [set, names, hn] using ih this

theorem names_set_of_not_mem {entries : Entries α} {name : String} (value : α)
    (h : name ∉ names entries) : names (set entries name value) = names entries ++ [name] := by
  induction entries with
  | nil => rfl
  | cons entry rest ih =>
      obtain ⟨n, v⟩ := entry
      simp only [names, List.map_cons, List.mem_cons, not_or] at h
      have hn : n ≠ name := fun e => h.1 e.symm
      simpa [set, names, hn] using ih h.2

end Entries

end Rollup
