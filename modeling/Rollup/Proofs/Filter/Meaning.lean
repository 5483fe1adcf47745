import Rollup.Proofs.Filter.Rejection

/-! # What a filter means

A query whose clauses all have an outcome on a row is a Boolean combination of tests. Clauses count as
they are listed, with one exception: an empty list for `must` or `filter` makes `should` optional,
while an empty list for `should` is none.
-/

namespace Rollup.Filter

/-- The verdict on a body of clauses with certain truth values: all of `must` and `filter` hold, none
of `must_not`, and one of `should` if that is demanded. -/
def verdict (demands : Json → Bool) (truth : Json → Bool) (body : Json) : Bool :=
  (required body).all truth && !(clauses body "must_not").any truth &&
    (!demands body || (clauses body "should").any truth)

/-- What a query says of a row, if bodies demand one of their `should` clauses in a certain way. -/
inductive Means (demands : Json → Bool) (row : Row) : Json → Bool → Prop where
  | test {query : Json} {test : Row → Bool} : Tests query test → Means demands row query (test row)
  | combined {body : Json} {truth : Json → Bool} :
      (∀ name ∈ clauseNames, ∀ clause ∈ clauses body name, Means demands row clause (truth clause)) →
      Means demands row (boolean body) (verdict demands truth body)

/-- There are `should` clauses, and no other clause has to pass. -/
def onlyShould (body : Json) : Bool := !(clauses body "should").isEmpty && (required body).isEmpty

/-- For a name a list without clauses is given. -/
def emptied (body : Json) (name : String) : Bool :=
  match body.member? name with
  | some (.array []) => true
  | _ => false

/-- No clause but those of `should` has to pass, and `must` or `filter` is given nevertheless. -/
def lenient (body : Json) : Bool := onlyShould body && (emptied body "must" || emptied body "filter")

theorem isNone_member? (body : Json) (name : String) :
    (body.member? name).isNone = ((clauses body name).isEmpty && !emptied body name) := by
  unfold clauses emptied
  cases body.member? name with
  | none => rfl
  | some value =>
      cases value with
      | array items => cases items <;> rfl
      | _ => rfl

/-- A `should` clause is demanded as its clauses alone would have it, except of a lenient body. -/
theorem mustChoose_eq (body : Json) : mustChoose body = (onlyShould body && !lenient body) := by
  simp only [mustChoose, isNone_member?, lenient, onlyShould, required]
  cases clauses body "should" <;> cases clauses body "must" <;> cases clauses body "filter" <;>
    cases emptied body "must" <;>
    cases emptied body "filter" <;> rfl

variable {demands other : Json → Bool} {truth : Json → Bool} {row : Row} {query body : Json}
  {queries : List Json}

theorem scan_all (known : ∀ query ∈ queries, accepts row query = .ok (truth query)) :
    scan row false queries = .ok (queries.all truth) := by
  induction queries with
  | nil => rfl
  | cons query queries ih =>
      rw [List.forall_mem_cons] at known
      rw [scan, known.1, ih known.2, List.all_cons]
      cases truth query <;> rfl

theorem scan_any (known : ∀ query ∈ queries, accepts row query = .ok (truth query)) :
    scan row true queries = .ok (queries.any truth) := by
  induction queries with
  | nil => rfl
  | cons query queries ih =>
      rw [List.forall_mem_cons] at known
      rw [scan, known.1, ih known.2, List.any_cons]
      cases truth query <;> rfl

/-- On clauses with outcomes, evaluation gives the verdict. -/
theorem accepts_verdict (known : ∀ name ∈ clauseNames, ∀ clause ∈ clauses body name,
    accepts row clause = .ok (truth clause)) :
    accepts row (boolean body) = .ok (verdict mustChoose truth body) := by
  have all : ∀ clause ∈ required body, accepts row clause = .ok (truth clause) :=
    List.forall_mem_append.mpr ⟨known "must" (by decide), known "filter" (by decide)⟩
  rw [accepts_boolean, scan_all all, scan_any (known "must_not" (by decide)),
    scan_any (known "should" (by decide)), verdict]
  cases (required body).all truth <;> cases (clauses body "must_not").any truth <;>
    cases mustChoose body <;> rfl

/-- A well-formed query means its outcome. -/
theorem exists_means (sound : WellFormed query) :
    ∃ accepted, accepts row query = .ok accepted ∧ Means mustChoose row query accepted := by
  induction query using induction_clauses with
  | plain query plain =>
      obtain ⟨body, rfl⟩ | ⟨test, tests⟩ | ⟨fault, malformed⟩ := clauses_tests_or_malformed query
      · exact absurd rfl (plain body)
      · exact ⟨test row, accepts_of_tests tests, .test tests⟩
      · exact absurd malformed (sound query .itself fault)
  | inside body ih =>
      -- Each clause has an outcome by induction, and these outcomes are the truth values.
      let truth (clause : Json) : Bool := (accepts row clause).toOption.getD false
      have each : ∀ name ∈ clauseNames, ∀ clause ∈ clauses body name,
          accepts row clause = .ok (truth clause) ∧ Means mustChoose row clause (truth clause) := by
        intro name named clause member
        obtain ⟨accepted, outcome, means⟩ := ih name clause member (sound.clause named member)
        have : truth clause = accepted := by simp [truth, outcome, Except.toOption]
        rw [this]
        exact ⟨outcome, means⟩
      exact ⟨verdict mustChoose truth body,
        accepts_verdict fun name named clause member => (each name named clause member).1,
        .combined fun name named clause member => (each name named clause member).2⟩

theorem Tests.unique {first second : Row → Bool} (tests : Tests query first)
    (also : Tests query second) : first row = second row :=
  Except.ok.inj ((accepts_of_tests tests).symm.trans (accepts_of_tests also))

theorem all_any_congr {truth also : Json → Bool} (same : ∀ query ∈ queries, truth query = also query) :
    queries.all truth = queries.all also ∧ queries.any truth = queries.any also := by
  induction queries with
  | nil => exact ⟨rfl, rfl⟩
  | cons query queries ih =>
      rw [List.forall_mem_cons] at same
      obtain ⟨all, any⟩ := ih same.2
      simp only [List.all_cons, List.any_cons, same.1, all, any, and_self]

theorem verdict_congr {truth also : Json → Bool} (demand : demands body = other body)
    (same : ∀ name ∈ clauseNames, ∀ clause ∈ clauses body name, truth clause = also clause) :
    verdict demands truth body = verdict other also body := by
  have all : ∀ clause ∈ required body, truth clause = also clause :=
    List.forall_mem_append.mpr ⟨same "must" (by decide), same "filter" (by decide)⟩
  rw [verdict, verdict, demand, (all_any_congr all).1, (all_any_congr (same "must_not" (by decide))).2,
    (all_any_congr (same "should" (by decide))).2]

/-- A query means one thing. -/
theorem Means.unique {first second : Bool} (means : Means demands row query first)
    (also : Means demands row query second) : first = second := by
  induction means generalizing second with
  | test tests =>
      cases also with
      | test others => exact tests.unique others
      | combined => exact absurd tests not_tests_boolean
  | @combined body truth each ih =>
      generalize is : boolean body = query at also
      cases also with
      | test tests => exact absurd (is ▸ tests) not_tests_boolean
      | combined others =>
          cases is
          exact verdict_congr rfl fun name named clause member =>
            ih name named clause member (others name named clause member)

/-- What is demanded matters only of the bodies in a query. -/
theorem Means.congr {accepted : Bool} (means : Means demands row query accepted)
    (same : ∀ body, Within (boolean body) query → demands body = other body) :
    Means other row query accepted := by
  induction means with
  | test tests => exact .test tests
  | @combined body truth each ih =>
      rw [verdict_congr (same body .itself) fun _ _ _ _ => rfl]
      exact .combined fun name named clause member =>
        ih name named clause member fun inner within => same inner (.clause named member within)

/-- A filter has a Boolean meaning on a row on which each query in it has an outcome. It is that of its
clauses as they are listed, one of `should` being demanded exactly if there are such clauses and none
of `must` or `filter`, unless a body within is lenient. A lenient body demands nothing but that no
clause of `must_not` holds. -/
theorem accepts_means (decided : ∀ sub, Within sub query → ∃ accepted, accepts row sub = .ok accepted) :
    (∀ accepted, accepts row query = .ok accepted ↔ Means mustChoose row query accepted) ∧
    (∀ body, mustChoose body = (onlyShould body && !lenient body)) ∧
    ((∀ body, Within (boolean body) query → lenient body = false) →
      ∀ accepted, accepts row query = .ok accepted ↔ Means onlyShould row query accepted) ∧
    ∀ body, Within (boolean body) query → lenient body →
      (accepts row (boolean body) = .ok true ↔
        ∀ clause ∈ clauses body "must_not", accepts row clause = .ok false) := by
  have sound : WellFormed query := decided_iff.mp decided
  have meant (accepted : Bool) :
      accepts row query = .ok accepted ↔ Means mustChoose row query accepted := by
    obtain ⟨outcome, evaluated, means⟩ : ∃ outcome, accepts row query = .ok outcome ∧
        Means mustChoose row query outcome := exists_means sound
    rw [evaluated, Except.ok.injEq]
    exact ⟨fun | rfl => means, means.unique⟩
  refine ⟨meant, mustChoose_eq, fun strict accepted => (meant accepted).trans ?_, ?_⟩
  · have same (body : Json) (within : Within (boolean body) query) :
        mustChoose body = onlyShould body := by
      rw [mustChoose_eq, strict body within, Bool.not_false, Bool.and_true]
    exact ⟨fun means => means.congr same,
      fun means => means.congr fun body within => (same body within).symm⟩
  · intro body within lax
    have bare : required body = [] := by
      have only := (Bool.and_eq_true_iff.mp lax).1
      exact List.isEmpty_iff.mp (Bool.and_eq_true_iff.mp only).2
    have free : mustChoose body = false := by rw [mustChoose_eq, lax, Bool.not_true, Bool.and_false]
    have excluded : scan row true (clauses body "must_not") = .ok false ↔
        ∀ clause ∈ clauses body "must_not", accepts row clause = .ok false := scan_eq_not
    rw [accepts_boolean_eq_true, bare, free, excluded]
    exact ⟨fun passed => passed.2.1, fun passed => ⟨rfl, passed, nofun⟩⟩

/-! ## All four names, three of them without clauses -/

def dashboard : Json :=
  .object [("must", .array []), ("filter", .array []), ("must_not", .array []),
    ("should", .array [.object [("term", .object [("host", .string "a")])]])]

theorem wellFormed_dashboard : WellFormed (boolean dashboard) := by
  refine wellFormed_boolean fun name named clause member => ?_
  simp only [clauseNames, List.mem_cons, List.not_mem_nil, or_false] at named
  rcases named with rfl | rfl | rfl | rfl
  · cases member
  · cases member
  · cases member
  · obtain rfl := List.mem_singleton.mp member
    exact wellFormed_of_tests .term

/-- A row passes of which the one clause does not hold. -/
theorem accepts_means_dashboard :
    accepts [("host", .string "b")] (boolean dashboard) = .ok true ∧ lenient dashboard := by
  have decided := (@decided_iff [("host", .string "b")] _).mpr wellFormed_dashboard
  exact ⟨((accepts_means decided).2.2.2 dashboard .itself rfl).mpr nofun, rfl⟩

end Rollup.Filter
