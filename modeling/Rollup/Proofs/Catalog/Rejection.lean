import Rollup.Catalog.Basic
import Rollup.Proofs.Filter.Rejection

/-! # Tables that reject a filter

A filter is checked only as it is evaluated, row by row. So whether it is rejected is up to the rows
of the table, unless it is well-formed, which no table rejects.
-/

namespace Rollup

open Rollup.Filter (ComesUpon Malformed WellFormed)

namespace Catalog

/-- Rows reject a query for what the first of them comes upon that comes upon something malformed. -/
inductive RejectedFor (query : Json) : List Row → QueryFault → Prop where
  | here {row : Row} {rows : List Row} {fault : QueryFault} : ComesUpon row query fault →
      RejectedFor query (row :: rows) fault
  | later {row : Row} {rows : List Row} {fault : QueryFault} :
      (∀ other, ¬ ComesUpon row query other) → RejectedFor query rows fault →
      RejectedFor query (row :: rows) fault

def Rejected (query : Json) (rows : List Row) : Prop := ∃ fault, RejectedFor query rows fault

variable {query : Json} {rows : List Row} {fault : QueryFault} {e : Error}

theorem filtered_eq_error : filtered (some query) rows = .error e ↔
    ∃ fault, RejectedFor query rows fault ∧ e = .invalidQuery fault := by
  induction rows with
  | nil => exact ⟨nofun, fun ⟨_, rejected, _⟩ => nomatch rejected⟩
  | cons row rows ih =>
      have head : accepts (some query) row = Filter.accepts row query := rfl
      rw [filtered, head]
      cases outcome : Filter.accepts row query with
      | error other =>
          obtain ⟨fault, upon, rfl⟩ := Filter.accepts_eq_error.mp outcome
          constructor
          · rintro ⟨⟩
            exact ⟨fault, .here upon, rfl⟩
          · rintro ⟨_, rejected, rfl⟩
            cases rejected with
            | here also =>
                cases outcome.symm.trans (Filter.accepts_eq_error.mpr ⟨_, also, rfl⟩)
                rfl
            | later never => exact absurd upon (never fault)
      | ok accepted =>
          have never (fault : QueryFault) : ¬ ComesUpon row query fault := fun upon =>
            nomatch outcome.symm.trans (Filter.accepts_eq_error.mpr ⟨fault, upon, rfl⟩)
          -- Whether the row is kept or not, the rest of the rows decides.
          have rest : (do
              let passing ← filtered (some query) rows
              return if accepted then row :: passing else passing) = .error e ↔
                filtered (some query) rows = .error e := by
            cases filtered (some query) rows with
            | error other => rfl
            | ok passing => exact ⟨nofun, nofun⟩
          refine rest.trans (ih.trans ⟨?_, ?_⟩)
          · rintro ⟨fault, rejected, rfl⟩
            exact ⟨fault, .later never rejected, rfl⟩
          · rintro ⟨fault, rejected, rfl⟩
            cases rejected with
            | here upon => exact absurd upon (never fault)
            | later _ rejected => exact ⟨fault, rejected, rfl⟩

/-- Rows reject a query if one of them comes upon something malformed. -/
theorem rejected_iff : Rejected query rows ↔ ∃ row ∈ rows, ∃ fault, ComesUpon row query fault := by
  constructor
  · rintro ⟨fault, rejected⟩
    induction rejected with
    | here upon => exact ⟨_, List.mem_cons_self, _, upon⟩
    | later _ _ ih =>
        obtain ⟨row, member, upon⟩ := ih
        exact ⟨row, List.mem_cons_of_mem _ member, upon⟩
  · rintro ⟨row, member, upon⟩
    induction rows with
    | nil => cases member
    | cons first rows ih =>
        by_cases here : ∃ fault, ComesUpon first query fault
        · obtain ⟨fault, upon⟩ := here
          exact ⟨fault, .here upon⟩
        · have after : row ∈ rows := by
            refine (List.mem_cons.mp member).resolve_left ?_
            rintro rfl
            exact here upon
          obtain ⟨fault, rejected⟩ := ih after
          exact ⟨fault, .later (not_exists.mp here) rejected⟩

/-- A query that is malformed by itself is rejected where there is a row. -/
theorem rejected_of_malformed (malformed : Malformed query fault) :
    Rejected query rows ↔ rows ≠ [] := by
  rw [rejected_iff]
  constructor
  · rintro ⟨row, member, -⟩
    exact List.ne_nil_of_mem member
  · intro some
    obtain ⟨row, member⟩ := List.exists_mem_of_ne_nil rows some
    exact ⟨row, member, fault, .itself malformed⟩

/-- Whether a query is rejected is the same for all tables only if no row comes upon something
malformed: no table without rows rejects it. -/
theorem rejected_alike_iff : (∀ rows other, Rejected query rows ↔ Rejected query other) ↔
    ∀ row fault, ¬ ComesUpon row query fault := by
  constructor
  · intro alike row fault upon
    obtain ⟨_, rejected⟩ := (alike [row] []).mp ⟨fault, .here upon⟩
    cases rejected
  · intro never rows other
    have none (rows : List Row) : ¬ Rejected query rows := by
      rw [rejected_iff]
      exact fun ⟨row, _, fault, upon⟩ => never row fault upon
    exact iff_of_false (none rows) (none other)

section Tables

variable {catalog : Catalog} {scope : Scope}

theorem count_eq_error (found : catalog.table scope.table = .ok rows)
    (asked : scope.filter = some query) : catalog.count scope.table scope.filter = .error e ↔
      ∃ fault, RejectedFor query rows fault ∧ e = .invalidQuery fault := by
  rw [← filtered_eq_error, count, found, asked]
  show (do return (← filtered (some query) rows).length) = _ ↔ _
  cases filtered (some query) rows with
  | error other => exact ⟨fun | rfl => rfl, fun | rfl => rfl⟩
  | ok passing => exact ⟨nofun, nofun⟩

theorem fetch_eq_error (found : catalog.table scope.table = .ok rows)
    (asked : scope.filter = some query) : catalog.fetch scope = .error e ↔
      ∃ fault, RejectedFor query rows fault ∧ e = .invalidQuery fault := by
  rw [← filtered_eq_error, fetch, found, asked]
  show (do
    let rows ← filtered (some query) rows
    let rows := rows.filter fun row => scope.keyPath.all (Filter.acceptsKey row)
    return rows.map (project scope.columns)) = _ ↔ _
  cases filtered (some query) rows with
  | error other => exact ⟨fun | rfl => rfl, fun | rfl => rfl⟩
  | ok passing => exact ⟨nofun, nofun⟩

/-- Whether a filter is rejected is up to the rows. Counting and fetching reject it for what the first
row comes upon on which evaluation comes upon something malformed, so exactly if there is such a row.
All tables agree on a filter only if there can be no such row. There is none if the filter is
well-formed at every depth; a filter that is malformed by itself is let through only where there are
no rows at all. -/
theorem rejected_by_rows (found : catalog.table scope.table = .ok rows)
    (asked : scope.filter = some query) :
    (∀ e, catalog.count scope.table scope.filter = .error e ↔
      ∃ fault, RejectedFor query rows fault ∧ e = .invalidQuery fault) ∧
    (∀ e, catalog.fetch scope = .error e ↔
      ∃ fault, RejectedFor query rows fault ∧ e = .invalidQuery fault) ∧
    (Rejected query rows ↔ ∃ row ∈ rows, ∃ fault, ComesUpon row query fault) ∧
    ((∀ rows other, Rejected query rows ↔ Rejected query other) ↔
      ∀ row fault, ¬ ComesUpon row query fault) ∧
    (WellFormed query → ∀ row fault, ¬ ComesUpon row query fault) ∧
    ∀ fault, Malformed query fault → (Rejected query rows ↔ rows ≠ []) :=
  ⟨fun _ => count_eq_error found asked, fun _ => fetch_eq_error found asked, rejected_iff,
    rejected_alike_iff, fun sound _ _ => Filter.not_comesUpon_of_wellFormed sound,
    fun _ => rejected_of_malformed⟩

end Tables

/-! ## A clause that not every table gets to -/

def sizes : Catalog :=
  [("none", []), ("brief", [[("status", .number (.int 404))]]),
    ("logs", [[("status", .number (.int 200)), ("bytes", .number (.int 10))]])]

def fuzzy : Json := .object [("fuzzy", .object [("host", .string "x")])]

def sized : Json := .object [("exists", .object [("field", .string "bytes")])]

def similar (table : String) : Scope :=
  ⟨table, "hosts", ["host"], [], some (Filter.boolean (.object [("must", .array [sized, fuzzy])]))⟩

/-- The clause that is not supported shows only where a row has the field. -/
theorem rejected_by_rows_similar :
    sizes.fetch (similar "logs") = .error (.invalidQuery (.unsupported "fuzzy")) ∧
      sizes.fetch (similar "brief") = .ok [] ∧ sizes.fetch (similar "none") = .ok [] := by
  have upon : ComesUpon [("status", .number (.int 200)), ("bytes", .number (.int 10))]
      (Filter.boolean (.object [("must", .array [sized, fuzzy])])) (.unsupported "fuzzy") :=
    .clause (.required rfl (List.forall_mem_singleton.mpr rfl)) (.itself (.unsupported (by decide)))
  have found : sizes.table (similar "logs").table =
      .ok [[("status", .number (.int 200)), ("bytes", .number (.int 10))]] := rfl
  exact ⟨((rejected_by_rows found rfl).2.1 _).mpr ⟨_, .here upon, rfl⟩, rfl, rfl⟩

end Catalog

end Rollup
