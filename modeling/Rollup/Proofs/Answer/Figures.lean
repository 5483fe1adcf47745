import Rollup.Answer.Aggregations
import Rollup.Proofs.Aggregation.Properties
import Rollup.Proofs.Pipeline.Series

/-! # Figures

The least, the greatest, the sum and the mean of a list of numbers are computed one by one, and
together in a record of statistics. An answer shows the same text for both, except for the sum of no
numbers: alone it is the neutral element `-0.0`, and in a record it is `0.0`.
-/

namespace Rollup

/-- A number that is a result of its own, and a member of a record of statistics. -/
inductive Figure where
  | min
  | max
  | sum
  | avg
  deriving DecidableEq

namespace Figure

/-- The member of a record that holds the figure. -/
def name : Figure → String
  | min => "min"
  | max => "max"
  | sum => "sum"
  | avg => "avg"

/-- The metric that computes the figure alone. -/
def metric : Figure → Metric
  | min => .min
  | max => .max
  | sum => .sum
  | avg => .avg

/-- The reducer that computes the figure alone. -/
def reducer : Figure → Reducer
  | min => .min
  | max => .max
  | sum => .sum
  | avg => .avg

/-- The figure of a list of numbers. -/
def ofList (numbers : List Float) : Figure → Option Float
  | min => Binary64.least? numbers
  | max => Binary64.greatest? numbers
  | sum => some (Binary64.sum numbers)
  | avg => Binary64.mean? numbers

/-- The figure of a record. -/
def ofStats (stats : Stats) : Figure → Option Float
  | min => stats.min
  | max => stats.max
  | sum => stats.sum
  | avg => stats.avg

variable {figure : Figure} {numbers : List Float}

theorem numbers_of_compute {node : Node} {rows : RowSet} {value : Value}
    (computed : figure.metric.compute node rows = .ok value) :
    ∃ numbers, Metric.numbers node rows = .ok numbers ∧
      value = .single (figure.ofList numbers) := by
  cases figure
  all_goals
    obtain ⟨numbers, read, ⟨⟩⟩ := bind_eq_ok.mp computed
    exact ⟨numbers, read, rfl⟩

theorem apply_reducer (figure : Figure) (numbers : List Float) :
    figure.reducer.apply numbers = .single (figure.ofList numbers) := by
  cases figure <;> rfl

theorem ofStats_of_ne_nil (some : numbers ≠ []) :
    figure.ofStats (.ofList numbers) = figure.ofList numbers := by
  cases figure with
  | sum =>
      show Option.some (if numbers.isEmpty then 0.0 else Binary64.sum numbers) = _
      rw [if_neg (by simpa using some)]
      rfl
  | _ => rfl

theorem ofStats_of_ne_sum (other : figure ≠ sum) :
    figure.ofStats (.ofList numbers) = figure.ofList numbers := by
  cases figure with
  | sum => exact absurd rfl other
  | _ => rfl

/-! ## What is shown -/

/-- The text that an answer shows for a value under a name. -/
def shownText? (value : Value) (name : String) : Option String :=
  ((Answer.resultJson (.value value)).member? name).map Json.text

theorem shownText?_single (x : Option Float) :
    shownText? (.single x) "value" = some (Json.ofFloat? x).text := rfl

theorem shownText?_stats (stats : Stats) (figure : Figure) :
    shownText? (.stats stats) figure.name = some (Json.ofFloat? (figure.ofStats stats)).text := by
  cases figure <;> rfl

/-- A value and a record show the same of a figure, unless it is the sum of nothing. -/
structure Agree (figure : Figure) (nothing : Prop) (single record : Value) : Prop where
  same : ¬ (figure = sum ∧ nothing) → ∃ text,
    shownText? single "value" = some text ∧ shownText? record figure.name = some text
  apart : figure = sum → nothing →
    shownText? single "value" = some "-0.0" ∧ shownText? record "sum" = some "0.0"

theorem agree_ofList {nothing : Prop} (empty : nothing ↔ numbers = []) :
    figure.Agree nothing (.single (figure.ofList numbers)) (.stats (.ofList numbers)) where
  same usual := by
    refine ⟨_, shownText?_single _, ?_⟩
    rw [shownText?_stats]
    by_cases sums : figure = sum
    · rw [ofStats_of_ne_nil fun none => usual ⟨sums, empty.mpr none⟩]
    · rw [ofStats_of_ne_sum sums]
  apart := by
    rintro rfl none
    obtain rfl := empty.mp none
    exact ⟨by decide +kernel, by decide +kernel⟩

/-! ## Numbers of a column -/

/-- What a value of a column counts as: nulls do not count. -/
inductive CountsAs : Json → Option Float → Prop where
  | null : CountsAs .null none
  | number (n : Number) : CountsAs (.number n) (some n.toFloat)

section Numbers

variable {node : Node} {rows : RowSet}

theorem numbers_eq_ok : Metric.numbers node rows = .ok numbers ↔
    ∃ field, node.field = some field ∧ ∃ read,
      List.Forall₂ (fun row x => ∃ value, row.lookup field = some value ∧ CountsAs value x)
        rows.toList read ∧ numbers = read.reduceOption := by
  have required {field : String} : node.requireField = .ok field ↔ node.field = some field := by
    refine ⟨Node.field_of_requireField, fun is => ?_⟩
    rw [Node.requireField, is]
  unfold Metric.numbers
  simp only [bind_eq_ok, required, mapM_eq_ok]
  refine exists_congr fun field => and_congr_right fun _ => ?_
  have cells := RowSet.column_values rows node.name field
  -- The rows of a column stand beside its values, so that both lists are gone through together.
  constructor
  · rintro ⟨values, column, read, each, ⟨⟩⟩
    rw [column] at cells
    refine ⟨read, forall₂_exists_iff.mp ⟨values.map (·.2), ?_, ?_⟩, rfl⟩
    · exact (mapM_eq_ok.mp cells.symm).imp fun row value found => cell_eq_ok.mp found
    · rw [List.forall₂_map_left_iff]
      refine each.imp fun value x counted => ?_
      obtain ⟨id, value⟩ := value
      cases value <;> cases counted
      · exact .null
      · exact .number _
  · rintro ⟨read, each, rfl⟩
    obtain ⟨found, looked, counted⟩ := forall₂_exists_iff.mpr each
    rw [mapM_eq_ok.mpr (looked.imp fun row value found => cell_eq_ok.mpr found)] at cells
    obtain ⟨values, column, rfl⟩ := map_eq_ok.mp cells
    refine ⟨values, column, read, ?_, rfl⟩
    rw [List.forall₂_map_left_iff] at counted
    refine counted.imp fun value x counts => ?_
    obtain ⟨id, value⟩ := value
    cases counts <;> rfl

theorem numbers_of_field {other : Node} (alike : node.field = other.field) :
    Metric.numbers node rows = .ok numbers ↔ Metric.numbers other rows = .ok numbers := by
  rw [numbers_eq_ok, numbers_eq_ok, alike]

theorem numbers_eq_nil_iff (read : Metric.numbers node rows = .ok numbers) :
    ¬ node.Numeric rows.toList ↔ numbers = [] := by
  obtain ⟨field, is, read, each, rfl⟩ := numbers_eq_ok.mp read
  rw [List.reduceOption, List.filterMap_eq_nil_iff]
  constructor
  · intro nothing x member
    obtain ⟨row, hrow, value, found, counts⟩ := exists_related each member
    cases counts with
    | null => rfl
    | number n => exact absurd ⟨field, is, row, hrow, n, found⟩ nothing
  · rintro empty ⟨_, is', row, member, n, found⟩
    cases is.symm.trans is'
    obtain ⟨x, hx, value, found', counts⟩ := exists_related each.flip member
    cases found.symm.trans found'
    cases counts
    cases empty _ hx

end Numbers

/-! ## Metrics and pipelines -/

/-- A sequence has no values exactly if it has only gaps, and they are left out. -/
theorem values_eq_nil_iff {policy : GapPolicy} {sequence : List (Key × Option Float)} :
    (∀ entry ∈ sequence, policy = .skip ∧ GapPolicy.IsGap entry.2) ↔
      (sequence.filterMap fun entry => policy.apply entry.2) = [] := by
  simp only [List.filterMap_eq_nil_iff, GapPolicy.apply_eq_none_iff]

/-- A metric and a record of statistics, over the same rows and one field, tell the same story; so do
a reducer and a record of it, over the same sequence under one gap policy. The sum of nothing alone
is told apart. -/
theorem figures_agree [Memory] (figure : Figure) :
    (∀ (node whole : Node) (rows : RowSet) (single record : Value), node.field = whole.field →
      figure.metric.compute node rows = .ok single →
      Metric.stats.compute whole rows = .ok record →
      figure.Agree (¬ node.Numeric rows.toList) single record) ∧
    ∀ (node whole : Node) (policy : GapPolicy) (sequence : List (Key × Option Float)),
      GapPolicy.Asked node policy → GapPolicy.Asked whole policy →
      ∃ single record,
        (Pipeline.reduce figure.reducer).compute node (.sequence sequence) = .ok (.value single) ∧
        (Pipeline.reduce .stats).compute whole (.sequence sequence) = .ok (.value record) ∧
        figure.Agree (∀ entry ∈ sequence, policy = .skip ∧ GapPolicy.IsGap entry.2)
          single record := by
  constructor
  · intro node whole rows single record alike computed recorded
    obtain ⟨numbers, read, rfl⟩ := numbers_of_compute computed
    obtain ⟨numbers', read', ⟨⟩⟩ := bind_eq_ok.mp recorded
    cases read'.symm.trans ((numbers_of_field alike).mp read)
    exact agree_ofList (numbers_eq_nil_iff read)
  · intro node whole policy sequence asked asked'
    refine ⟨figure.reducer.apply _, _,
      bind_eq_ok.mpr ⟨policy, GapPolicy.ofNode_of_asked asked, rfl⟩,
      bind_eq_ok.mpr ⟨policy, GapPolicy.ofNode_of_asked asked', rfl⟩, ?_⟩
    rw [apply_reducer]
    exact agree_ofList values_eq_nil_iff

/-! ## Tickets without a price -/

def total : Node := ⟨"total", "sum", .metric, some "price", [], []⟩

def prices : Node := ⟨"prices", "stats", .metric, some "price", [], []⟩

def tickets : RowSet := .all [[("price", .null)]].toArray

theorem figures_agree_tickets :
    Metric.sum.compute total tickets = .ok (.single (some (-0.0))) ∧
      Metric.stats.compute prices tickets = .ok (.stats (.ofList [])) ∧
      Agree sum (¬ total.Numeric tickets.toList) (.single (some (-0.0))) (.stats (.ofList [])) := by
  have read : Metric.numbers total tickets = .ok [] := by
    refine numbers_eq_ok.mpr ⟨"price", rfl, [none], ?_, rfl⟩
    rw [tickets, RowSet.toList_all]
    exact .cons ⟨.null, rfl, .null⟩ .nil
  have summed : Metric.sum.compute total tickets = .ok (.single (some (-0.0))) :=
    bind_eq_ok.mpr ⟨[], read, rfl⟩
  have recorded : Metric.stats.compute prices tickets = .ok (.stats (.ofList [])) :=
    bind_eq_ok.mpr ⟨[], (numbers_of_field rfl).mp read, rfl⟩
  exact ⟨summed, recorded, (figures_agree sum).1 total prices tickets _ _ rfl summed recorded⟩

end Figure

end Rollup
