import Rollup.Filter
import Rollup.Proofs.Lookup
import Rollup.Proofs.Success

/-! # Clauses of a filter

A `bool` query goes through its clauses name by name, and through those of a name up to the first one
that settles the outcome. Every other query either tests a row or is malformed, and which of the two
does not depend on the row.
-/

namespace Rollup.Filter

/-! ## Queries of clauses -/

/-- The names under which a `bool` query has clauses. -/
def clauseNames : List String := ["must", "filter", "must_not", "should"]

/-- What is given for a name: a list of clauses, or a single one. -/
def listed : Json → List Json
  | .array items => items
  | clause => [clause]

/-- The clauses of a name. -/
def clauses (body : Json) (name : String) : List Json := (body.member? name).elim [] listed

/-- The query that a body of clauses makes. -/
def boolean (body : Json) : Json := .object [("bool", body)]

/-- The clauses that all have to pass. -/
def required (body : Json) : List Json := clauses body "must" ++ clauses body "filter"

/-- Whether one of the `should` clauses has to pass: there are some, and neither `must` nor `filter`
is given. -/
def mustChoose (body : Json) : Bool :=
  !(clauses body "should").isEmpty && (body.member? "must").isNone &&
    (body.member? "filter").isNone

/-- Go through queries up to the first one with a certain outcome. -/
def scan (row : Row) (stop : Bool) : List Json → Except Error Bool
  | [] => .ok !stop
  | query :: queries => do
      if (← accepts row query) = stop then return stop else scan row stop queries

section Scan

variable {row : Row}

theorem allOf_eq_scan (queries : List Json) : allOf row queries = scan row false queries := by
  induction queries with
  | nil => rw [allOf]; rfl
  | cons query queries ih =>
      rw [allOf, scan, ih]
      cases accepts row query with
      | error e => rfl
      | ok accepted => cases accepted <;> rfl

theorem anyOf_eq_scan (queries : List Json) : anyOf row queries = scan row true queries := by
  induction queries with
  | nil => rw [anyOf]; rfl
  | cons query queries ih => rw [anyOf, scan, ih]

theorem scan_singleton (stop : Bool) (query : Json) : scan row stop [query] = accepts row query := by
  rw [scan, scan]
  cases accepts row query with
  | error e => rfl
  | ok accepted => cases accepted <;> cases stop <;> rfl

theorem clauses_cons (other : String) (value : Json) (members : List (String × Json)) (name : String) :
    clauses (.object ((other, value) :: members)) name =
      if other = name then listed value else clauses (.object members) name := by
  simp only [clauses, Json.member?, Json.object?, Option.bind_some, lookup_cons_ite,
    eq_comm (a := name)]
  split <;> rfl

theorem allNamed_eq_scan (name : String) (members : List (String × Json)) :
    allNamed row name members = scan row false (clauses (.object members) name) := by
  induction members with
  | nil => rw [allNamed]; rfl
  | cons member members ih =>
      obtain ⟨other, value⟩ := member
      rw [clauses_cons]
      cases value with
      | array items =>
          rw [allNamed, ih, allOf_eq_scan]
          split <;> rfl
      | _ =>
          rw [allNamed, ih]
          · split
            · exact (scan_singleton _ _).symm
            · rfl
          · nofun

theorem anyNamed_eq_scan (name : String) (members : List (String × Json)) :
    anyNamed row name members = scan row true (clauses (.object members) name) := by
  induction members with
  | nil => rw [anyNamed]; rfl
  | cons member members ih =>
      obtain ⟨other, value⟩ := member
      rw [clauses_cons]
      cases value with
      | array items =>
          rw [anyNamed, ih, anyOf_eq_scan]
          split <;> rfl
      | _ =>
          rw [anyNamed, ih]
          · split
            · exact (scan_singleton _ _).symm
            · rfl
          · nofun

theorem scan_append (stop : Bool) (before after : List Json) :
    scan row stop (before ++ after) = (do
      if (← scan row stop before) = stop then return stop
      scan row stop after) := by
  induction before with
  | nil => cases stop <;> rfl
  | cons query queries ih =>
      rw [List.cons_append, scan, scan, ih]
      cases accepts row query with
      | error e => rfl
      | ok accepted => cases accepted <;> cases stop <;> rfl

theorem mustChoose_object (members : List (String × Json)) :
    mustChoose (.object members) =
      (!((members.lookup "must").isSome || (members.lookup "filter").isSome) &&
        match members.lookup "should" with
        | none => false
        | some (.array []) => false
        | some _ => true) := by
  have member (name : String) : (Json.object members).member? name = members.lookup name := rfl
  have given : (!(clauses (.object members) "should").isEmpty) =
      match members.lookup "should" with
      | none => false
      | some (.array []) => false
      | some _ => true := by
    rw [clauses, member]
    cases members.lookup "should" with
    | none => rfl
    | some value =>
        cases value with
        | array items => cases items <;> rfl
        | _ => rfl
  rw [mustChoose, given, member, member]
  cases members.lookup "must" <;> cases members.lookup "filter" <;> simp

/-- A query of clauses asks three questions, one after the other. -/
theorem accepts_boolean (body : Json) : accepts row (boolean body) = (do
    if (← scan row false (required body)) = false then return false
    if (← scan row true (clauses body "must_not")) = true then return false
    if mustChoose body then scan row true (clauses body "should") else return true) := by
  have opened : accepts row (boolean body) = acceptsAll row body := by rw [boolean, accepts]
  rw [opened, required, scan_append]
  cases body with
  | object members =>
      rw [acceptsAll, allNamed_eq_scan, allNamed_eq_scan, anyNamed_eq_scan, anyNamed_eq_scan,
        mustChoose_object, bind_assoc]
      refine bind_congr fun must => ?_
      cases must with
      | false => rfl
      | true =>
          refine bind_congr fun filter => ?_
          cases filter with
          | false => rfl
          | true =>
              refine bind_congr fun excluded => ?_
              cases excluded <;> cases members.lookup "must" <;>
                cases members.lookup "filter" <;> rfl
  | _ =>
      rw [acceptsAll]
      · rfl
      · nofun

end Scan

/-! ## Outcomes -/

section Outcomes

variable {row : Row} {stop : Bool} {queries : List Json} {body : Json} {e : Error}

/-- No query settles the outcome. -/
theorem scan_eq_not : scan row stop queries = .ok !stop ↔
    ∀ query ∈ queries, accepts row query = .ok !stop := by
  induction queries with
  | nil => simp [scan]
  | cons first queries ih =>
      rw [scan, List.forall_mem_cons, ← ih]
      cases accepts row first with
      | error e => simp [bind, Except.bind]
      | ok outcome => cases outcome <;> cases stop <;> simp [bind, Except.bind, pure, Except.pure]

/-- There is an error where a query has one and no query before it settles the outcome. -/
theorem scan_eq_error : scan row stop queries = .error e ↔
    ∃ before query after, queries = before ++ query :: after ∧
      (∀ other ∈ before, accepts row other = .ok !stop) ∧ accepts row query = .error e := by
  constructor
  · intro failed
    induction queries with
    | nil => cases failed
    | cons first queries ih =>
        rw [scan] at failed
        cases head : accepts row first with
        | error fault =>
            rw [head] at failed
            cases failed
            exact ⟨[], first, queries, rfl, nofun, head⟩
        | ok outcome =>
            rw [head] at failed
            change (if outcome = stop then _ else _) = _ at failed
            split at failed
            · cases failed
            · rename_i goes
              obtain ⟨before, query, after, rfl, passed, fault⟩ := ih failed
              rw [Bool.eq_not.mpr goes] at head
              exact ⟨first :: before, query, after, rfl, List.forall_mem_cons.mpr ⟨head, passed⟩, fault⟩
  · rintro ⟨before, query, after, rfl, passed, fault⟩
    rw [scan_append, scan_eq_not.mpr passed, scan, fault]
    cases stop <;> rfl

/-- The next question is asked if the one before has a certain answer. -/
theorem gate_eq_error {answer next : Except Error Bool} :
    (do if (← answer) = stop then return false else next) = .error e ↔
      answer = .error e ∨ answer = .ok (!stop) ∧ next = .error e := by
  cases answer with
  | error fault => simp [bind, Except.bind]
  | ok passed => cases passed <;> cases stop <;> simp [bind, Except.bind, pure, Except.pure]

theorem gate_eq_true {answer next : Except Error Bool} :
    (do if (← answer) = stop then return false else next) = .ok true ↔
      answer = .ok (!stop) ∧ next = .ok true := by
  cases answer with
  | error fault => simp [bind, Except.bind]
  | ok passed => cases passed <;> cases stop <;> simp [bind, Except.bind, pure, Except.pure]

theorem accepts_boolean_eq_error : accepts row (boolean body) = .error e ↔
    scan row false (required body) = .error e ∨ scan row false (required body) = .ok true ∧
      (scan row true (clauses body "must_not") = .error e ∨
        scan row true (clauses body "must_not") = .ok false ∧
          mustChoose body ∧ scan row true (clauses body "should") = .error e) := by
  rw [accepts_boolean, gate_eq_error, gate_eq_error]
  cases mustChoose body <;> simp [pure, Except.pure]

theorem accepts_boolean_eq_true : accepts row (boolean body) = .ok true ↔
    scan row false (required body) = .ok true ∧
      scan row true (clauses body "must_not") = .ok false ∧
        (mustChoose body → scan row true (clauses body "should") = .ok true) := by
  rw [accepts_boolean, gate_eq_true, gate_eq_true]
  cases mustChoose body <;> simp [pure, Except.pure]

end Outcomes

/-! ## Queries by their clauses -/

theorem sizeOf_clause {body : Json} {name : String} {clause : Json}
    (member : clause ∈ clauses body name) : sizeOf clause < sizeOf body := by
  unfold clauses at member
  cases found : body.member? name with
  | none => simp [found] at member
  | some value =>
      rw [found, Option.elim_some] at member
      obtain ⟨members, rfl, looked⟩ : ∃ members, body = .object members ∧
          members.lookup name = some value := by
        cases body <;> simp_all [Json.member?, Json.object?]
      have inside := List.sizeOf_lt_of_mem (mem_of_lookup looked)
      have below : sizeOf clause ≤ sizeOf value := by
        cases value with
        | array items =>
            have smaller : sizeOf clause < sizeOf items := List.sizeOf_lt_of_mem member
            simp
            omega
        | _ => rw [List.mem_singleton.mp member]
      simp at inside ⊢
      omega

/-- What holds of queries without clauses, and of a query of clauses if it holds of each of them,
holds of all queries. -/
theorem induction_clauses {P : Json → Prop} (plain : ∀ query, (∀ body, query ≠ boolean body) → P query)
    (inside : ∀ body, (∀ name, ∀ clause ∈ clauses body name, P clause) → P (boolean body))
    (query : Json) : P query := by
  by_cases is : ∃ body, query = boolean body
  · obtain ⟨body, _is⟩ := is
    rw [_is]
    exact inside body fun name clause _member => induction_clauses plain inside clause
  · exact plain query fun body same => is ⟨body, same⟩
termination_by sizeOf query
decreasing_by
  have smaller := sizeOf_clause _member
  simp [_is, boolean]
  omega

end Rollup.Filter
