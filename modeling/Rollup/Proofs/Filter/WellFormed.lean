import Rollup.Proofs.Filter.Clauses

/-! # Well-formed filters

A query is malformed by itself, or asks for a test of a row, or has clauses. One that is well-formed at
every depth has an outcome on every row.
-/

namespace Rollup.Filter

/-- The kinds of queries that there are. -/
def kinds : List String := ["match_all", "term", "terms", "range", "exists", "bool"]

/-- What is wrong with a query itself, whatever its clauses. -/
inductive Malformed : Json → QueryFault → Prop where
  | notObject {query : Json} : query.object? = none → Malformed query .notObject
  | notOneClause {members : List (String × Json)} : members.length ≠ 1 →
      Malformed (.object members) .notOneClause
  | notOneField {kind : String} {body : Json} : kind ∈ ["term", "terms", "range"] →
      (∀ member, body ≠ .object [member]) → Malformed (.object [(kind, body)]) (.notOneField kind)
  | termsNotList {field : String} {expected : Json} : expected.array? = none →
      Malformed (.object [("terms", .object [(field, expected)])]) .termsNotList
  | existsWithoutField {body : Json} : (body.member? "field").bind Json.string? = none →
      Malformed (.object [("exists", body)]) .existsWithoutField
  | unsupported {kind : String} {body : Json} : kind ∉ kinds →
      Malformed (.object [(kind, body)]) (.unsupported kind)

/-- The value that a `term` query expects. -/
def expectedOf : Json → Json
  | .object members => (members.lookup "value").getD .null
  | value => value

/-- Whether a quantity keeps all four bounds. -/
def keepsAll (bounds : Json) (x : Float) : Bool :=
  keeps bounds "gte" (fun b => b ≤ x) && keeps bounds "gt" (fun b => b < x) &&
    keeps bounds "lte" (fun b => x ≤ b) && keeps bounds "lt" (fun b => x < b)

/-- A query without clauses, and what it tests of a row. -/
inductive Tests : Json → (Row → Bool) → Prop where
  | matchAll {body : Json} : Tests (.object [("match_all", body)]) fun _ => true
  | term {field : String} {expected : Json} :
      Tests (.object [("term", .object [(field, expected)])]) fun row =>
        (row.lookup field).any fun actual => equals actual (expectedOf expected)
  | terms {field : String} {items : List Json} :
      Tests (.object [("terms", .object [(field, .array items)])]) fun row =>
        (row.lookup field).any fun actual => items.any (equals actual)
  | range {field : String} {bounds : Json} :
      Tests (.object [("range", .object [(field, bounds)])]) fun row =>
        ((row.lookup field).bind quantity?).any (keepsAll bounds)
  | present {body : Json} {field : String} : body.member? "field" = some (.string field) →
      Tests (.object [("exists", body)]) fun row =>
        (row.lookup field).any fun value => !value.isNull

variable {row : Row} {query : Json} {test : Row → Bool} {fault : QueryFault}

theorem accepts_of_tests (tests : Tests query test) : accepts row query = .ok (test row) := by
  cases tests with
  | matchAll => rw [accepts]
  | @term field expected =>
      rw [accepts]
      cases expected <;> rfl
  | terms =>
      rw [accepts]
      rfl
  | @range field bounds =>
      rw [accepts]
      show Except.ok _ = .ok (((row.lookup field).bind quantity?).any (keepsAll bounds))
      cases (row.lookup field).bind quantity? <;> rfl
  | present found =>
      rw [accepts, fieldExists, found]
      rfl

theorem onlyField_eq_error {kind : String} {body : Json} (many : ∀ member, body ≠ .object [member]) :
    onlyField kind body = .error (.invalidQuery (.notOneField kind)) := by
  unfold onlyField
  split
  · exact absurd rfl (many _)
  · rfl

theorem accepts_of_malformed (malformed : Malformed query fault) :
    accepts row query = .error (.invalidQuery fault) := by
  cases malformed with
  | notObject other =>
      cases query <;> first | rfl | cases other
  | @notOneClause members several =>
      match members with
      | [] => rfl
      | [_] => exact absurd rfl several
      | _ :: _ :: _ => rfl
  | @notOneField kind body known many =>
      have refused : onlyField kind body = .error (.invalidQuery (.notOneField kind)) :=
        onlyField_eq_error many
      simp only [List.mem_cons, List.not_mem_nil, or_false] at known
      rcases known with rfl | rfl | rfl
      · rw [accepts, term, refused]
        rfl
      · rw [accepts, terms, refused]
        rfl
      · rw [accepts, range, refused]
        rfl
  | @termsNotList field expected other =>
      rw [accepts]
      cases expected <;> first | rfl | cases other
  | existsWithoutField unnamed =>
      rw [accepts, fieldExists, unnamed]
      rfl
  | unsupported unknown =>
      rw [accepts]
      all_goals
        rintro rfl
        exact unknown (by decide)

/-- The body of a query about one field names it, or the query is malformed. -/
theorem single_or_malformed (kind : String) (known : kind ∈ ["term", "terms", "range"]) (body : Json) :
    (∃ field value, body = .object [(field, value)]) ∨
      Malformed (.object [(kind, body)]) (.notOneField kind) := by
  by_cases single : ∃ field value, body = .object [(field, value)]
  · exact .inl single
  · exact .inr (.notOneField known fun member same => single ⟨member.1, member.2, same⟩)

/-- Every query has clauses, tests a row, or is malformed. -/
theorem clauses_tests_or_malformed (query : Json) :
    (∃ body, query = boolean body) ∨ (∃ test, Tests query test) ∨ ∃ fault, Malformed query fault := by
  match query with
  | .object [(kind, body)] =>
      by_cases known : kind ∈ kinds
      · simp only [kinds, List.mem_cons, List.not_mem_nil, or_false] at known
        rcases known with rfl | rfl | rfl | rfl | rfl | rfl
        · exact .inr (.inl ⟨_, .matchAll⟩)
        · obtain ⟨field, value, rfl⟩ | many := single_or_malformed "term" (by decide) body
          · exact .inr (.inl ⟨_, .term⟩)
          · exact .inr (.inr ⟨_, many⟩)
        · obtain ⟨field, value, rfl⟩ | many := single_or_malformed "terms" (by decide) body
          · cases value with
            | array items => exact .inr (.inl ⟨_, .terms⟩)
            | _ => exact .inr (.inr ⟨_, .termsNotList rfl⟩)
          · exact .inr (.inr ⟨_, many⟩)
        · obtain ⟨field, value, rfl⟩ | many := single_or_malformed "range" (by decide) body
          · exact .inr (.inl ⟨_, .range⟩)
          · exact .inr (.inr ⟨_, many⟩)
        · cases found : (body.member? "field").bind Json.string? with
          | none => exact .inr (.inr ⟨_, .existsWithoutField found⟩)
          | some field =>
              obtain ⟨value, found, text⟩ := Option.bind_eq_some_iff.mp found
              cases value <;> cases text
              exact .inr (.inl ⟨_, .present found⟩)
        · exact .inl ⟨body, rfl⟩
      · exact .inr (.inr ⟨_, .unsupported known⟩)
  | .object [] => exact .inr (.inr ⟨_, .notOneClause (by decide)⟩)
  | .object (_ :: _ :: _) => exact .inr (.inr ⟨_, .notOneClause (by simp)⟩)
  | .null | .bool _ | .number _ | .string _ | .array _ => exact .inr (.inr ⟨_, .notObject rfl⟩)

/-- A query of clauses is not malformed by itself. -/
theorem not_malformed_boolean (body : Json) : ¬ Malformed (boolean body) fault := by
  intro malformed
  generalize is : boolean body = query at malformed
  cases malformed with
  | notObject other =>
      subst is
      cases other
  | notOneClause several =>
      cases is
      exact several rfl
  | notOneField known =>
      simp only [boolean, Json.object.injEq, List.cons.injEq, Prod.mk.injEq, and_true] at is
      obtain ⟨rfl, -⟩ := is
      simp at known
  | termsNotList => simp [boolean] at is
  | existsWithoutField => simp [boolean] at is
  | unsupported unknown =>
      simp only [boolean, Json.object.injEq, List.cons.injEq, Prod.mk.injEq, and_true] at is
      obtain ⟨rfl, -⟩ := is
      exact unknown (by decide)

theorem not_tests_boolean {body : Json} : ¬ Tests (boolean body) test := by
  intro tests
  generalize is : boolean body = query at tests
  cases tests <;> simp [boolean] at is

/-! ## All depths -/

/-- A query and the clauses in it, at every depth. -/
inductive Within : Json → Json → Prop where
  | itself {query : Json} : Within query query
  | clause {sub body clause : Json} {name : String} : name ∈ clauseNames →
      clause ∈ clauses body name → Within sub clause → Within sub (boolean body)

theorem Within.trans {first second third : Json} (inner : Within first second)
    (outer : Within second third) : Within first third := by
  induction outer with
  | itself => exact inner
  | clause named member _ ih => exact .clause named member ih

/-- A query that is malformed at no depth. -/
def WellFormed (query : Json) : Prop :=
  ∀ sub, Within sub query → ∀ fault, ¬ Malformed sub fault

theorem WellFormed.within {sub : Json} (sound : WellFormed query) (within : Within sub query) :
    WellFormed sub :=
  fun inner inside => sound inner (inside.trans within)

theorem wellFormed_of_tests (tests : Tests query test) : WellFormed query := by
  intro sub within fault malformed
  cases within with
  | itself => cases (@accepts_of_tests [] _ _ tests).symm.trans (accepts_of_malformed malformed)
  | clause => exact not_tests_boolean tests

theorem wellFormed_boolean {body : Json} (each : ∀ name ∈ clauseNames, ∀ clause ∈ clauses body name,
    WellFormed clause) : WellFormed (boolean body) := by
  intro sub within fault malformed
  generalize is : boolean body = query at within
  cases within with
  | itself => exact not_malformed_boolean body (is ▸ malformed)
  | clause named member inner =>
      cases is
      exact each _ named _ member sub inner fault malformed

theorem WellFormed.clause {body clause : Json} {name : String} (sound : WellFormed (boolean body))
    (named : name ∈ clauseNames) (member : clause ∈ clauses body name) : WellFormed clause :=
  sound.within (.clause named member .itself)

end Rollup.Filter
