import Rollup.Proofs.Binary64.Faithful
import Rollup.Proofs.Bucketing.Methods
import Rollup.Proofs.Calendar.Written
import Rollup.Proofs.Catalog.KeyPath
import Rollup.Proofs.Filter.Bounds

/-! # The written form of a date key

Next to its key a bucket of time shows the key as a text. The text can be given where a query takes a time:
as a bound of a range, and as an end of the span that a date histogram fills. There it stands for the start
of the bucket.
-/

namespace Rollup

open Calendar (Instant Interval)

open Binary64 (Faithful ofInt)

namespace Filter

variable {side : Side} {bound instant : Instant}

/-- Whether an instant is on the right side of another. -/
def Side.admitsTime (side : Side) (bound instant : Instant) : Bool :=
  match side with
  | atLeast => bound ≤ instant
  | above => bound < instant
  | atMost => instant ≤ bound
  | below => instant < bound

theorem Side.admits_ofInt (hbound : ExactTime bound) (hinstant : ExactTime instant) :
    side.admits (ofInt bound) (ofInt instant) = side.admitsTime bound instant := by
  cases side with
  | atLeast => exact decide_eq_decide.mpr (Binary64.ofInt_le_iff hbound hinstant)
  | above => exact decide_eq_decide.mpr (Binary64.ofInt_lt_iff hbound hinstant)
  | atMost => exact decide_eq_decide.mpr (Binary64.ofInt_le_iff hinstant hbound)
  | below => exact decide_eq_decide.mpr (Binary64.ofInt_lt_iff hinstant hbound)

theorem bound?_only (side : Side) (value : Json) (other : Side) :
    bound? (.object [(side.name, value)]) other = if other = side then quantity? value else none := by
  rw [bound?_eq, Json.member?, Json.object?, Option.bind_some, lookup_cons_ite]
  by_cases same : other = side
  · simp [same]
  · have apart : other.name ≠ side.name := fun names => same (Side.name_injective names)
    simp [same, apart]

/-- A range with one text for a bound compares the quantities of rows with the instant that the text reads
as. -/
theorem accepts_bounded {text : String} (read : Instant.ofJson? (.string text) = some bound) (row : Row)
    (field : String) (side : Side) :
    accepts row (ranging field (.object [(side.name, .string text)])) =
      .ok (((row.lookup field).bind quantity?).any (side.admits (ofInt bound))) := by
  have tested : accepts row (ranging field (.object [(side.name, .string text)])) = .ok
      (((row.lookup field).bind quantity?).any (keepsAll (.object [(side.name, .string text)]))) :=
    accepts_of_tests .range
  have quantity : quantity? (.string text) = some (ofInt bound) := congrArg (Option.map ofInt) read
  have only : keepsAll (.object [(side.name, .string text)]) = side.admits (ofInt bound) := by
    funext x
    rw [Bool.eq_iff_iff, keepsAll_iff]
    simp [bound?_only, quantity]
  rw [tested, only]

/-- For rows with times the comparison is that of instants. -/
theorem any_admits_of_timely {value : Json} (exact : ExactTime bound) (timely : Timely value)
    (time : Instant.ofJson? value = some instant) :
    (quantity? value).any (side.admits (ofInt bound)) = side.admitsTime bound instant := by
  rw [timely.quantity?_eq, time, Option.map_some, Option.any_some,
    Side.admits_ofInt exact (timely.exactTime time)]

end Filter

namespace DateHistogram

variable {node : Node} {first last : Instant}

/-- The ends that a node gives are read as instants, and must be in order. -/
theorem boundsOf_eq {members : List (String × Json)}
    (given : node.param? "extended_bounds" = some (.object members))
    (early : (members.lookup "min").bind Instant.ofJson? = some first)
    (late : (members.lookup "max").bind Instant.ofJson? = some last) :
    boundsOf node = if first ≤ last then .ok (some (first, last))
      else .error (node.badParam "extended_bounds" .boundsReversed) := by
  simp only [boundsOf, Node.extendedBounds, given, early, late, bind, Except.bind]
  by_cases ordered : first ≤ last
  · rw [if_pos ordered, if_neg (by simpa using ordered)]
    rfl
  · rw [if_neg ordered, if_pos (by simpa using ordered)]
    rfl

/-- Ends that are starts of intervals are ends of the span, unless rows widen it. -/
theorem filledSpan_eq {interval : Interval} (given : boundsOf node = .ok (some (first, last)))
    (early : interval.floor first = some first) (late : interval.floor last = some last)
    (points : List Int) :
    filledSpan node interval points = .ok (some (widen (spanOf points) first last)) := by
  rw [filledSpan, given]
  simp only [bind, Except.bind, early, late]
  rfl

end DateHistogram

namespace Key

open Rollup.Filter (Side accepts ranging quantity?)

open DateHistogram (boundsOf filledSpan)

theorem exactTime_of_fourDigitYear {millis : Int} (year : Instant.FourDigitYear millis) :
    ExactTime millis := by
  obtain ⟨least, most⟩ := Instant.fourDigitYear_iff.mp year
  unfold ExactTime
  omega

theorem faithful_of_fourDigitYear {millis : Int} (year : Instant.FourDigitYear millis) :
    Faithful millis := by
  obtain ⟨least, most⟩ := Instant.fourDigitYear_iff.mp year
  exact Binary64.faithful_of_lt (by omega)

/-- A date key of the years 0000 to 9999 is written as a text that reads back as exactly its instant, so
that different keys have different texts. As a bound of a range the text is the number of exactly its
milliseconds, and it admits the rows whose times are on the right side of the instant. As the ends of a span
two such texts are read as the two instants, which must be in order; if both are starts of intervals, the
span has these ends unless rows widen it. -/
theorem dateText_denotes {first last : Instant} (early : first.FourDigitYear)
    (late : last.FourDigitYear) :
    ∃ text other, (Key.date first).dateText? = some text ∧ (Key.date last).dateText? = some other ∧
      Instant.ofJson? (.string text) = some first ∧ Instant.ofJson? (.string other) = some last ∧
      (text = other → first = last) ∧
      Faithful first ∧
      (∀ (row : Row) (field : String) (side : Side),
        accepts row (ranging field (.object [(side.name, .string text)])) =
          .ok (((row.lookup field).bind quantity?).any (side.admits (ofInt first)))) ∧
      (∀ (value : Json) (instant : Instant) (side : Side), Timely value →
        Instant.ofJson? value = some instant →
        (quantity? value).any (side.admits (ofInt first)) = side.admitsTime first instant) ∧
      ∀ (node : Node) (members : List (String × Json)),
        node.param? "extended_bounds" = some (.object members) →
        members.lookup "min" = some (.string text) → members.lookup "max" = some (.string other) →
        boundsOf node = (if first ≤ last then .ok (some (first, last))
          else .error (node.badParam "extended_bounds" .boundsReversed)) ∧
        ∀ (interval : Interval) (points : List Int), first ≤ last →
          interval.floor first = some first → interval.floor last = some last →
          filledSpan node interval points = .ok (some (widen (spanOf points) first last)) := by
  obtain ⟨text, shown, read⟩ := Instant.ofText?_toText? early
  obtain ⟨other, shown', read'⟩ := Instant.ofText?_toText? late
  refine ⟨text, other, shown, shown', read, read', ?_, faithful_of_fourDigitYear early,
    Filter.accepts_bounded read, ?_, ?_⟩
  · rintro rfl
    exact Option.some.inj (read.symm.trans read')
  · intro value instant side timely time
    exact Filter.any_admits_of_timely (exactTime_of_fourDigitYear early) timely time
  · intro node members given low high
    have bounds := DateHistogram.boundsOf_eq given (by rw [low]; exact read) (by rw [high]; exact read')
    refine ⟨bounds, fun interval points ordered begun begun' => ?_⟩
    rw [if_pos ordered] at bounds
    exact DateHistogram.filledSpan_eq bounds begun begun' points

/-! ## From the last day before 1970 to a leap day -/

def acrossEpoch : Node :=
  ⟨"days", "date_histogram", .bucketing, some "day", [("calendar_interval", .string "day"),
    ("extended_bounds", .object [("min", .string "1969-12-31T00:00:00.000Z"),
      ("max", .string "2000-02-29T00:00:00.000Z")])], []⟩

/-- The span is filled from the one day to the other. -/
theorem dateText_denotes_acrossEpoch : Instant.FourDigitYear (-86400000) ∧
    Instant.FourDigitYear 951782400000 ∧
    (Key.date (-86400000)).dateText? = some "1969-12-31T00:00:00.000Z" ∧
    Instant.ofJson? (.string "1969-12-31T00:00:00.000Z") = some (-86400000) ∧
    accepts [("day", .number (.int (-86400001)))]
      (ranging "day" (.object [("gte", .string "1969-12-31T00:00:00.000Z")])) = .ok false ∧
    filledSpan acrossEpoch (.unit .day) [] = .ok (some (-86400000, 951782400000)) := by
  have early : Instant.FourDigitYear (-86400000) := Instant.fourDigitYear_iff.mpr (by decide)
  have late : Instant.FourDigitYear 951782400000 := Instant.fourDigitYear_iff.mpr (by decide)
  have shown : (Key.date (-86400000)).dateText? = some "1969-12-31T00:00:00.000Z" := by decide +kernel
  have shown' : (Key.date 951782400000).dateText? = some "2000-02-29T00:00:00.000Z" := by
    decide +kernel
  obtain ⟨text, other, is, is', read, -, -, -, bounded, times, filled⟩ := dateText_denotes early late
  obtain rfl := Option.some.inj (shown.symm.trans is)
  obtain rfl := Option.some.inj (shown'.symm.trans is')
  have exact : ExactTime (-86400001) := by decide
  refine ⟨early, late, shown, read, ?_, ?_⟩
  · refine (bounded _ "day" .atLeast).trans (congrArg Except.ok ?_)
    exact times (.number (.int (-86400001))) (-86400001) .atLeast (.millis exact) rfl
  · exact (filled acrossEpoch _ rfl rfl rfl).2 (.unit .day) [] (by decide) (by decide) (by decide)

end Key

end Rollup
