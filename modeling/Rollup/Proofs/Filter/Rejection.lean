import Rollup.Proofs.Filter.WellFormed

/-! # Filters that are rejected

Clauses are evaluated on a row only as far as the outcome is open. So a filter is rejected on a row
exactly if evaluation comes upon a malformed clause, and a filter that is well-formed on none.
-/

namespace Rollup

/-- Errors about a query. -/
def OfQuery (e : Error) : Prop := ∃ fault, e = .invalidQuery fault

namespace Filter

/-- On a row, evaluating a body of clauses gets as far as a certain one: those before it leave the
outcome open. -/
inductive Reached (row : Row) (body clause : Json) : Prop where
  | required {before after : List Json} : required body = before ++ clause :: after →
      (∀ other ∈ before, accepts row other = .ok true) → Reached row body clause
  | excluding {before after : List Json} :
      (∀ other ∈ Filter.required body, accepts row other = .ok true) →
      clauses body "must_not" = before ++ clause :: after →
      (∀ other ∈ before, accepts row other = .ok false) → Reached row body clause
  | choosing {before after : List Json} :
      (∀ other ∈ Filter.required body, accepts row other = .ok true) →
      (∀ other ∈ clauses body "must_not", accepts row other = .ok false) → mustChoose body →
      clauses body "should" = before ++ clause :: after →
      (∀ other ∈ before, accepts row other = .ok false) → Reached row body clause

/-- On a row, evaluating a query comes upon something malformed. -/
inductive ComesUpon (row : Row) : Json → QueryFault → Prop where
  | itself {query : Json} {fault : QueryFault} : Malformed query fault → ComesUpon row query fault
  | clause {body clause : Json} {fault : QueryFault} : Reached row body clause →
      ComesUpon row clause fault → ComesUpon row (boolean body) fault

variable {row : Row} {query body clause : Json} {e : Error}

theorem Reached.member (reached : Reached row body clause) :
    ∃ name ∈ clauseNames, clause ∈ clauses body name := by
  cases reached with
  | required split =>
      have member : clause ∈ Filter.required body := by simp [split]
      rcases List.mem_append.mp member with must | filter
      · exact ⟨"must", by decide, must⟩
      · exact ⟨"filter", by decide, filter⟩
  | excluding _ split => exact ⟨"must_not", by decide, by simp [split]⟩
  | choosing _ _ _ split => exact ⟨"should", by decide, by simp [split]⟩

/-- A query of clauses has the errors of the clauses that are reached. -/
theorem accepts_boolean_eq_error_iff : accepts row (boolean body) = .error e ↔
    ∃ clause, Reached row body clause ∧ accepts row clause = .error e := by
  rw [accepts_boolean_eq_error]
  constructor
  · rintro (failed | ⟨passed, failed | ⟨excluded, choose, failed⟩⟩)
    · obtain ⟨before, clause, after, split, others, fault⟩ := scan_eq_error.mp failed
      exact ⟨clause, .required split others, fault⟩
    · obtain ⟨before, clause, after, split, others, fault⟩ := scan_eq_error.mp failed
      exact ⟨clause, .excluding (scan_eq_not.mp passed) split others, fault⟩
    · obtain ⟨before, clause, after, split, others, fault⟩ := scan_eq_error.mp failed
      exact ⟨clause, .choosing (scan_eq_not.mp passed) (scan_eq_not.mp excluded) choose split others,
        fault⟩
  · rintro ⟨clause, reached, fault⟩
    cases reached with
    | required split others => exact .inl (scan_eq_error.mpr ⟨_, clause, _, split, others, fault⟩)
    | excluding passed split others =>
        exact .inr ⟨scan_eq_not.mpr passed,
          .inl (scan_eq_error.mpr ⟨_, clause, _, split, others, fault⟩)⟩
    | choosing passed excluded choose split others =>
        exact .inr ⟨scan_eq_not.mpr passed, .inr ⟨scan_eq_not.mpr excluded, choose,
          scan_eq_error.mpr ⟨_, clause, _, split, others, fault⟩⟩⟩

/-- A query is rejected on a row exactly for what evaluation comes upon. -/
theorem accepts_eq_error : accepts row query = .error e ↔
    ∃ fault, ComesUpon row query fault ∧ e = .invalidQuery fault := by
  induction query using induction_clauses generalizing e with
  | plain query plain =>
      constructor
      · intro failed
        obtain ⟨body, rfl⟩ | ⟨test, tests⟩ | ⟨fault, malformed⟩ := clauses_tests_or_malformed query
        · exact absurd rfl (plain body)
        · cases failed.symm.trans (accepts_of_tests tests)
        · cases failed.symm.trans (accepts_of_malformed malformed)
          exact ⟨fault, .itself malformed, rfl⟩
      · rintro ⟨fault, upon, rfl⟩
        cases upon with
        | itself malformed => exact accepts_of_malformed malformed
        | clause => exact absurd rfl (plain _)
  | inside body ih =>
      rw [accepts_boolean_eq_error_iff]
      constructor
      · rintro ⟨clause, reached, failed⟩
        obtain ⟨name, -, member⟩ := reached.member
        obtain ⟨fault, upon, rfl⟩ := (ih name clause member).mp failed
        exact ⟨fault, .clause reached upon, rfl⟩
      · rintro ⟨fault, upon, rfl⟩
        generalize is : boolean body = query at upon
        cases upon with
        | itself malformed => exact absurd (is ▸ malformed) (not_malformed_boolean body)
        | clause reached upon =>
            cases is
            obtain ⟨name, -, member⟩ := reached.member
            exact ⟨_, reached, (ih name _ member).mpr ⟨fault, upon, rfl⟩⟩

theorem accepts_raises (row : Row) (query : Json) : RaisesOnly OfQuery (accepts row query) := by
  intro e failed
  obtain ⟨fault, -, rfl⟩ := accepts_eq_error.mp failed
  exact ⟨fault, rfl⟩

/-- What evaluation comes upon is in the query. -/
theorem ComesUpon.malformed {fault : QueryFault} (upon : ComesUpon row query fault) :
    ∃ sub, Within sub query ∧ Malformed sub fault := by
  induction upon with
  | itself malformed => exact ⟨_, .itself, malformed⟩
  | clause reached _ ih =>
      obtain ⟨sub, within, malformed⟩ := ih
      obtain ⟨name, named, member⟩ := reached.member
      exact ⟨sub, .clause named member within, malformed⟩

theorem not_comesUpon_of_wellFormed {fault : QueryFault} (sound : WellFormed query) :
    ¬ ComesUpon row query fault := by
  intro upon
  obtain ⟨sub, within, malformed⟩ := upon.malformed
  exact sound sub within fault malformed

/-- Every query in a query has an outcome on a row exactly if none of them is malformed. -/
theorem decided_iff : (∀ sub, Within sub query → ∃ accepted, accepts row sub = .ok accepted) ↔
    WellFormed query := by
  constructor
  · intro decided sub within fault malformed
    obtain ⟨accepted, outcome⟩ := decided sub within
    cases outcome.symm.trans (accepts_of_malformed malformed)
  · intro sound sub within
    cases outcome : accepts row sub with
    | ok accepted => exact ⟨accepted, rfl⟩
    | error e =>
        obtain ⟨fault, upon, -⟩ := accepts_eq_error.mp outcome
        exact absurd upon (not_comesUpon_of_wellFormed (sound.within within))

end Filter

end Rollup
