import Rollup.Proofs.Filter.WellFormed

/-! # Bounds of a range

A range has up to four bounds. One that cannot be read is passed over, as if it were absent, so a row
that is accepted keeps only those that can be read.
-/

namespace Rollup.Filter

/-- The sides on which a range may be bounded. -/
inductive Side where
  | atLeast
  | above
  | atMost
  | below
  deriving DecidableEq, Repr

namespace Side

def name : Side → String
  | atLeast => "gte"
  | above => "gt"
  | atMost => "lte"
  | below => "lt"

/-- Whether a quantity is on the right side of a bound. -/
def admits (side : Side) (bound x : Float) : Bool :=
  match side with
  | atLeast => bound ≤ x
  | above => bound < x
  | atMost => x ≤ bound
  | below => x < bound

def all : List Side := [atLeast, above, atMost, below]

theorem mem_all (side : Side) : side ∈ all := by cases side <;> decide

theorem name_injective : Function.Injective name := by
  intro side other
  cases side <;> cases other <;> decide

end Side

/-- What is given as a bound: a member that is not null. -/
def given? (bounds : Json) (side : Side) : Option Json :=
  (bounds.member? side.name).filter fun value => !value.isNull

/-- The quantity that a bound reads as. -/
def bound? (bounds : Json) (side : Side) : Option Float := (given? bounds side).bind quantity?

/-- Every bound that is given can be read. -/
structure Readable (bounds : Json) : Prop where
  object : (bounds.object?).isSome
  sides : ∀ side value, given? bounds side = some value → (quantity? value).isSome

/-- A value lies within bounds: it reads as a quantity, and every bound that is given can be read and
admits it. -/
structure Lies (value : Option Json) (bounds : Json) : Prop where
  object : (bounds.object?).isSome
  quantity : ∃ x, value.bind quantity? = some x ∧ ∀ side given, given? bounds side = some given →
    ∃ bound, quantity? given = some bound ∧ side.admits bound x

/-- The query for the rows whose field lies within bounds. -/
def ranging (field : String) (bounds : Json) : Json :=
  .object [("range", .object [(field, bounds)])]

/-- A bound that can be read. -/
def readable? (bounds : Json) (side : Side) : Option Json :=
  (bounds.member? side.name).filter fun value => (quantity? value).isSome

/-- Bounds without those that cannot be read. -/
def legible (bounds : Json) : Json :=
  .object (Side.all.filterMap fun side => (readable? bounds side).map (side.name, ·))

variable {bounds : Json} {side : Side} {x : Float}

theorem bound?_eq : bound? bounds side = (bounds.member? side.name).bind quantity? := by
  rw [bound?, given?]
  cases bounds.member? side.name with
  | none => rfl
  | some value => cases value <;> rfl

theorem keeps_eq : keeps bounds side.name (side.admits · x) =
    (bound? bounds side).all (side.admits · x) := by
  rw [keeps, ← bound?_eq]
  cases bound? bounds side <;> rfl

/-- All bounds are kept if each that can be read is. -/
theorem keepsAll_iff : keepsAll bounds x ↔
    ∀ side bound, bound? bounds side = some bound → side.admits bound x := by
  have sides : keepsAll bounds x =
      Side.all.all fun side => (bound? bounds side).all (side.admits · x) := by
    simp only [Side.all, List.all_cons, List.all_nil, Bool.and_true, ← keeps_eq, keepsAll,
      Bool.and_assoc]
    rfl
  rw [sides, List.all_eq_true]
  constructor
  · intro kept side bound read
    have := kept side side.mem_all
    rwa [read] at this
  · intro kept side _
    cases read : bound? bounds side with
    | none => rfl
    | some bound => exact kept side bound read

theorem lookup_sides (value : Side → Option Json) (sides : List Side) (side : Side) :
    (sides.filterMap fun other => (value other).map (other.name, ·)).lookup side.name =
      if side ∈ sides then value side else none := by
  induction sides with
  | nil => rfl
  | cons other sides ih =>
      by_cases same : side = other
      · subst same
        cases found : value side with
        | none => simp [found, ih]
        | some given => simp [found, lookup_cons_ite]
      · have apart : side.name ≠ other.name := fun names => same (Side.name_injective names)
        cases found : value other with
        | none => simp [found, ih, same]
        | some given => simp [found, lookup_cons_ite, ih, same, apart]

theorem member?_legible : (legible bounds).member? side.name = readable? bounds side := by
  have looked := lookup_sides (readable? bounds) Side.all side
  rwa [if_pos side.mem_all] at looked

theorem given?_legible : given? (legible bounds) side = readable? bounds side := by
  rw [given?, member?_legible, readable?, Option.filter_filter]
  refine congrFun (congrArg Option.filter (funext fun value => ?_)) _
  cases value with
  | null | bool | array | object => rfl
  | number | string => exact Bool.and_true _

theorem readable_legible (bounds : Json) : Readable (legible bounds) where
  object := rfl
  sides side value given := by
    rw [given?_legible] at given
    exact (Option.filter_eq_some_iff.mp given).2

theorem bound?_legible : bound? (legible bounds) side = bound? bounds side := by
  rw [bound?, given?_legible, readable?, bound?_eq]
  cases bounds.member? side.name with
  | none => rfl
  | some value =>
      rw [Option.filter_some, Option.bind_some]
      cases read : quantity? value <;> simp [read]

/-- A bound that is relative to the present cannot be read. -/
example : (bound? (.object [("gte", .string "now-1d")]) .atLeast).isNone := by decide +kernel

/-- Within bounds that can be read lies what keeps them. -/
theorem lies_iff {value : Option Json} : Lies value bounds ↔
    (value.bind quantity?).any (keepsAll bounds) ∧ Readable bounds := by
  rw [Option.any_eq_true]
  constructor
  · rintro ⟨object, x, read, admitted⟩
    refine ⟨⟨x, read, keepsAll_iff.mpr fun side bound reads => ?_⟩, object, fun side given found => ?_⟩
    · obtain ⟨given, found, known⟩ := Option.bind_eq_some_iff.mp reads
      obtain ⟨_, same, admits⟩ := admitted side given found
      cases known.symm.trans same
      exact admits
    · obtain ⟨bound, known, -⟩ := admitted side given found
      rw [known]
      rfl
  · rintro ⟨⟨x, read, kept⟩, object, sides⟩
    refine ⟨object, x, read, fun side given found => ?_⟩
    obtain ⟨bound, known⟩ := Option.isSome_iff_exists.mp (sides side given found)
    have reads := Option.bind_eq_some_iff.mpr ⟨given, found, known⟩
    exact ⟨bound, known, keepsAll_iff.mp kept side bound reads⟩

theorem keepsAll_legible : keepsAll (legible bounds) x = keepsAll bounds x := by
  rw [Bool.eq_iff_iff, keepsAll_iff, keepsAll_iff]
  simp only [bound?_legible]

/-- A range is never rejected, and accepts the rows that lie within those of its bounds that can be
read. So it accepts the rows within its bounds, and others only where a bound that is given cannot be
read or the bounds are no object. -/
theorem ranging_lapses (row : Row) (field : String) (bounds : Json) :
    (∃ accepted, accepts row (ranging field bounds) = .ok accepted) ∧
      (accepts row (ranging field bounds) = .ok true ↔ Lies (row.lookup field) (legible bounds)) ∧
      (Lies (row.lookup field) bounds ↔
        accepts row (ranging field bounds) = .ok true ∧ Readable bounds) := by
  have tested : accepts row (ranging field bounds) =
      .ok (((row.lookup field).bind quantity?).any (keepsAll bounds)) := accepts_of_tests .range
  have kept : ((row.lookup field).bind quantity?).any (keepsAll (legible bounds)) =
      ((row.lookup field).bind quantity?).any (keepsAll bounds) := by
    rw [show keepsAll (legible bounds) = keepsAll bounds from funext fun _ => keepsAll_legible]
  rw [tested, lies_iff, lies_iff, kept, Except.ok.injEq]
  exact ⟨⟨_, rfl⟩, (and_iff_left (readable_legible bounds)).symm, Iff.rfl⟩

end Rollup.Filter
