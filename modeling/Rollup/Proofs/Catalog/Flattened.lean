import Rollup.Catalog.Ndjson
import Rollup.Proofs.Lookup
import Rollup.Proofs.Success

/-! # Rows of flattened objects

A row has a column for each leaf of the object on its line: a value that is no object, reached through
objects only. The column is named by the names on the way there, joined by points, but names that are
empty are left out for as long as nothing stands before them. So a leaf is lost or misnamed exactly if
it lies below an empty name.
-/

namespace Rollup

mutual

/-- The leaves of a value, each with the names on the way to it. -/
def Json.leaves : Json → List (List String × Json)
  | .object members => leavesOf members
  | value => [([], value)]

/-- The leaves of an object's members. -/
def Json.leavesOf : List (String × Json) → List (List String × Json)
  | [] => []
  | (name, value) :: members =>
      (value.leaves.map fun leaf => (name :: leaf.1, leaf.2)) ++ leavesOf members

end

namespace Ndjson

/-! ## Names of columns -/

/-- All names on the way, with points between them. -/
def dotted (path : List String) : String := ".".intercalate path

/-- The column of a leaf: empty names are left out until a name stands before them. -/
def column (path : List String) : String := dotted (path.dropWhile (· = ""))

/-- A leaf that lies below an empty name. -/
def BelowEmpty (path : List String) : Prop := ∃ name rest, path = "" :: name :: rest

theorem foldl_columnName_of_ne {above : String} (named : above ≠ "") (path : List String) :
    path.foldl columnName above = dotted (above :: path) := by
  induction path generalizing above with
  | nil => exact String.intercalate_singleton.symm
  | cons name rest ih =>
      have step : columnName above name = above ++ "." ++ name := by
        rw [columnName, if_neg (by simpa using named)]
      have longer : above ++ "." ++ name ≠ "" := by
        simp [String.append_eq_empty_iff]
      rw [List.foldl_cons, step, ih longer, dotted, String.intercalate_cons_append, dotted,
        String.intercalate_cons_cons]

theorem foldl_columnName (path : List String) : path.foldl columnName "" = column path := by
  induction path with
  | nil => rfl
  | cons name rest ih =>
      have first : columnName "" name = name := rfl
      rw [List.foldl_cons, first]
      by_cases empty : name = ""
      · rw [empty, ih, column, column, List.dropWhile_cons_of_pos (by simp)]
      · rw [foldl_columnName_of_ne empty, column, List.dropWhile_cons_of_neg (by simpa using empty)]

theorem length_column_le (path : List String) : (column path).length ≤ (dotted path).length := by
  induction path with
  | nil => exact Nat.le_refl _
  | cons name rest ih =>
      by_cases empty : name = ""
      · rw [column, List.dropWhile_cons_of_pos (by simpa using empty), ← column]
        refine ih.trans ?_
        cases rest with
        | nil => simp [dotted]
        | cons next rest => simp [dotted]
      · rw [column, List.dropWhile_cons_of_neg (by simpa using empty)]

/-- A leaf that lies below an empty name loses at least a point. -/
theorem length_column_lt {path : List String} (below : BelowEmpty path) :
    (column path).length < (dotted path).length := by
  obtain ⟨name, rest, rfl⟩ := below
  have dropped : column ("" :: name :: rest) = column (name :: rest) :=
    congrArg dotted (List.dropWhile_cons_of_pos (by simp))
  calc (column ("" :: name :: rest)).length
      = (column (name :: rest)).length := by rw [dropped]
    _ ≤ (dotted (name :: rest)).length := length_column_le _
    _ < (dotted ("" :: name :: rest)).length := by
      have point : ".".length = 1 := rfl
      simp [dotted, point]

theorem column_eq_dotted {path : List String} (apart : ¬ BelowEmpty path) :
    column path = dotted path := by
  match path with
  | [] => rfl
  | [name] =>
      by_cases empty : name = ""
      · subst empty
        rfl
      · rw [column, List.dropWhile_cons_of_neg (by simpa using empty)]
  | name :: next :: rest =>
      have named : name ≠ "" := by
        rintro rfl
        exact apart ⟨next, rest, rfl⟩
      rw [column, List.dropWhile_cons_of_neg (by simpa using named)]

/-! ## Leaves as columns -/

mutual

theorem addColumn_eq (row : Row) (above : String) : ∀ value : Json,
    addColumn row above value =
      Entries.setAll row (value.leaves.map fun leaf => (leaf.1.foldl columnName above, leaf.2))
  | .object members => by
      rw [addColumn, Json.leaves]
      exact addColumns_eq row above members
  | .null | .bool _ | .number _ | .string _ | .array _ => by
      simp only [addColumn, Json.leaves]
      rfl

theorem addColumns_eq (row : Row) (above : String) : ∀ members : List (String × Json),
    addColumns row above members =
      Entries.setAll row
        ((Json.leavesOf members).map fun leaf => (leaf.1.foldl columnName above, leaf.2))
  | [] => by
      rw [addColumns, Json.leavesOf]
      rfl
  | (name, value) :: members => by
      rw [addColumns, Json.leavesOf, addColumn_eq row (columnName above name) value,
        addColumns_eq _ above members, List.map_append, List.map_map]
      exact List.foldl_append.symm

end

/-- The columns that the leaves of an object are to have, each with its value. -/
def columnsOf (name : List String → String) (members : List (String × Json)) : Row :=
  (Json.leavesOf members).map fun leaf => (name leaf.1, leaf.2)

theorem addColumns_top (members : List (String × Json)) :
    addColumns [] "" members = Entries.ofList (columnsOf column members) := by
  rw [addColumns_eq, Entries.ofList, columnsOf]
  simp only [foldl_columnName]

/-- What the row of an object has: a column for each leaf, of which the last one of a name stays. If the
dotted names of all leaves are distinct, the row has a column for each of these names with the value
of its leaf, and nothing else, exactly if no leaf lies below an empty name. -/
structure Flattens (members : List (String × Json)) (row : Row) : Prop where
  columns : row = Entries.ofList (columnsOf column members)
  lossless_iff : ((columnsOf dotted members).map (·.1)).Nodup →
    (row.Perm (columnsOf dotted members) ↔
      ∀ leaf ∈ Json.leavesOf members, ¬ BelowEmpty leaf.1)

theorem lossless_of_apart {members : List (String × Json)}
    (distinct : ((columnsOf dotted members).map (·.1)).Nodup)
    (apart : ∀ leaf ∈ Json.leavesOf members, ¬ BelowEmpty leaf.1) :
    Entries.ofList (columnsOf column members) = columnsOf dotted members := by
  have same : columnsOf column members = columnsOf dotted members := by
    refine List.map_congr_left fun leaf member => ?_
    rw [column_eq_dotted (apart leaf member)]
  rw [same, Entries.ofList, Entries.setAll_of_nodup (by simpa using distinct), List.nil_append]

theorem apart_of_lossless {members : List (String × Json)}
    (distinct : ((columnsOf dotted members).map (·.1)).Nodup)
    (lossless : (Entries.ofList (columnsOf column members)).Perm (columnsOf dotted members)) :
    ∀ leaf ∈ Json.leavesOf members, ¬ BelowEmpty leaf.1 := by
  by_contra some_below
  push Not at some_below
  -- Among the leaves below an empty name, take one whose dotted name is longest.
  let below : Set (List String × Json) := { leaf | leaf ∈ Json.leavesOf members ∧ BelowEmpty leaf.1 }
  have finite : below.Finite := (Json.leavesOf members).finite_toSet.subset fun _ h => h.1
  obtain ⟨leaf, ⟨member, under⟩, longest⟩ :=
    below.exists_max_image (fun leaf => (dotted leaf.1).length) finite some_below
  -- Its dotted name is the column of some leaf.
  have there : dotted leaf.1 ∈ (Entries.ofList (columnsOf column members)).map (·.1) := by
    refine (lossless.map _).mem_iff.mpr ?_
    exact List.mem_map_of_mem (f := Prod.fst) (List.mem_map_of_mem member)
  have among := Entries.names_setAll_subset [] _ there
  rw [List.map_nil, List.nil_append, columnsOf, List.map_map, List.mem_map] at among
  obtain ⟨other, otherMember, same⟩ := among
  by_cases otherUnder : BelowEmpty other.1
  · have shorter := length_column_lt otherUnder
    have atMost := longest other ⟨otherMember, otherUnder⟩
    have alike : (column other.1).length = (dotted leaf.1).length := congrArg String.length same
    omega
  · have alike : dotted other.1 = dotted leaf.1 := (column_eq_dotted otherUnder).symm.trans same
    rw [columnsOf, List.map_map] at distinct
    obtain rfl := List.inj_on_of_nodup_map distinct otherMember member alike
    exact otherUnder under

theorem flattens (members : List (String × Json)) : Flattens members (addColumns [] "" members) where
  columns := addColumns_top members
  lossless_iff distinct := by
    rw [addColumns_top]
    constructor
    · exact apart_of_lossless distinct
    · intro apart
      rw [lossless_of_apart distinct apart]

/-- A text whose filled lines are all objects has a row for each of them, in order, in which the object
is flattened. -/
theorem rowsOfText_flattens {text : String} {objects : List (List (String × Json))}
    (lines : List.Forall₂ (fun line members => Json.ofText line = .ok (.object members))
      (Text.filledLines text.toList) objects) :
    ∃ rows, rowsOfText text = .ok rows ∧ List.Forall₂ Flattens objects rows := by
  refine ⟨objects.map (addColumns [] ""), ?_, ?_⟩
  · refine mapM_eq_ok.mpr (List.forall₂_map_right_iff.mpr (lines.imp fun line members reads => ?_))
    rw [rowOfLine, reads]
  · exact List.forall₂_map_right_iff.mpr (List.forall₂_same.mpr fun members _ => flattens members)

/-- Two hosts on lines of their own, with a blank line between them. -/
def hostsText : String :=
  "\x7b\"host\": \x7b\"name\": \"a\", \"ip\": [10]\x7d, \"up\": true\x7d\n \n" ++
    "\x7b\"host\": \x7b\"name\": \"b\"\x7d\x7d\n"

def hosts : List (List (String × Json)) :=
  [[("host", .object [("name", .string "a"), ("ip", .array [.number (.int 10)])]), ("up", .bool true)],
   [("host", .object [("name", .string "b")])]]

theorem rowsOfText_flattens_hosts :
    List.Forall₂ (fun line members => Json.ofText line = .ok (.object members))
        (Text.filledLines hostsText.toList) hosts ∧
      rowsOfText hostsText = .ok
        [[("host.name", .string "a"), ("host.ip", .array [.number (.int 10)]), ("up", .bool true)],
         [("host.name", .string "b")]] ∧
      ∃ rows, rowsOfText hostsText = .ok rows ∧ List.Forall₂ Flattens hosts rows := by
  have split : Text.filledLines hostsText.toList =
      ["\x7b\"host\": \x7b\"name\": \"a\", \"ip\": [10]\x7d, \"up\": true\x7d".toList,
       "\x7b\"host\": \x7b\"name\": \"b\"\x7d\x7d".toList] := by cbv
  have lines : List.Forall₂ (fun line members => Json.ofText line = .ok (.object members))
      (Text.filledLines hostsText.toList) hosts := by
    rw [split]
    exact .cons (by cbv) (.cons (by cbv) .nil)
  exact ⟨lines, by cbv, rowsOfText_flattens lines⟩

end Ndjson

end Rollup
