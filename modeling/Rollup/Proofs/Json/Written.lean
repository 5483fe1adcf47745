import Rollup.Json.Raw
import Rollup.Proofs.Success

/-! # Values as they are written

A text that is JSON is a tree whose objects are lists of members: nothing is wrong in it, and a name
that repeats is still there. These are the trees that read as a value, and each has its value.
-/

namespace Rollup.Json

/-- A JSON value as it is written. -/
inductive Written where
  | null
  | bool (value : Bool)
  | number (value : Number)
  | string (value : String)
  | array (items : List Written)
  | object (members : List (String × Written))
  deriving Repr

namespace Written

mutual

/-- The tree that reading the text makes. -/
def raw : Written → Raw
  | .null => .null
  | .bool b => .bool b
  | .number n => .number (.ok n)
  | .string s => .string (.ok s)
  | .array items => .array (rawItems items) .closed
  | .object members => .object (rawMembers members) .closed

def rawItems : List Written → List Raw
  | [] => []
  | item :: items => raw item :: rawItems items

def rawMembers : List (String × Written) → List (Except Fault String × Raw)
  | [] => []
  | (name, member) :: members => (.ok name, raw member) :: rawMembers members

end

mutual

/-- The value that is meant: a name that repeats has its last value, at its first place. -/
def json : Written → Json
  | .null => .null
  | .bool b => .bool b
  | .number n => .number n
  | .string s => .string s
  | .array items => .array (jsonItems items)
  | .object members => .object (Entries.ofList (jsonMembers members))

def jsonItems : List Written → List Json
  | [] => []
  | item :: items => json item :: jsonItems items

def jsonMembers : List (String × Written) → List (String × Json)
  | [] => []
  | (name, member) :: members => (name, json member) :: jsonMembers members

end

mutual

/-- How many containers stand in one another. -/
def nesting : Written → Nat
  | .array items => nestingItems items + 1
  | .object members => nestingMembers members + 1
  | _ => 0

def nestingItems : List Written → Nat
  | [] => 0
  | item :: items => max (nesting item) (nestingItems items)

def nestingMembers : List (String × Written) → Nat
  | [] => 0
  | (_, member) :: members => max (nesting member) (nestingMembers members)

end

theorem nesting_le_of_mem {members : List (String × Written)} {member : String × Written}
    (mem : member ∈ members) : member.2.nesting ≤ nestingMembers members := by
  induction members with
  | nil => cases mem
  | cons first rest ih =>
      obtain ⟨name, tree⟩ := first
      rw [nestingMembers]
      rcases List.mem_cons.mp mem with rfl | mem
      · exact le_max_left _ _
      · exact (ih mem).trans (le_max_right _ _)

/-- What stands in an object has one more container around it. -/
theorem fits_of_mem {depth : Nat} {members : List (String × Written)} {member : String × Written}
    (mem : member ∈ members) (fits : depth + (object members).nesting ≤ maxDepth) :
    depth + 1 + member.2.nesting ≤ maxDepth := by
  have := nesting_le_of_mem mem
  rw [nesting] at fits
  omega

theorem sizeOf_lt_of_mem {members : List (String × Written)} {member : String × Written}
    (mem : member ∈ members) : sizeOf member.2 < sizeOf (object members) := by
  have := List.sizeOf_lt_of_mem mem
  obtain ⟨name, tree⟩ := member
  simp only [object.sizeOf_spec, Prod.mk.sizeOf_spec] at *
  omega

/-- What an object has from its members holds of every value, if it holds of all that is no
object. -/
theorem induction_members {P : Written → Prop}
    (object : ∀ members, (∀ member ∈ members, P member.2) → P (.object members))
    (other : ∀ tree, (∀ members, tree ≠ .object members) → P tree) (tree : Written) : P tree := by
  cases tree with
  | object members => exact object members fun member mem => induction_members object other member.2
  | null | bool | number | string | array => exact other _ nofun
termination_by sizeOf tree
decreasing_by exact sizeOf_lt_of_mem mem

mutual

/-- A value that is not nested too deeply reads as what is meant. -/
theorem value_raw (tree : Written) {depth : Nat} (fits : depth + tree.nesting ≤ maxDepth) :
    Raw.value depth tree.raw = .ok tree.json := by
  cases tree with
  | null | bool | number | string => rfl
  | array items =>
      rw [nesting] at fits
      have within : ¬ maxDepth ≤ depth := by omega
      rw [raw, Raw.value, if_neg within, values_rawItems items (by omega)]
      rfl
  | object members =>
      rw [nesting] at fits
      have within : ¬ maxDepth ≤ depth := by omega
      rw [raw, Raw.value, if_neg within, memberValues_rawMembers members (by omega)]
      rfl

theorem values_rawItems (items : List Written) {depth : Nat}
    (fits : depth + nestingItems items ≤ maxDepth) :
    Raw.values depth (rawItems items) = .ok (jsonItems items) := by
  match items with
  | [] => rfl
  | item :: items =>
      rw [nestingItems] at fits
      rw [rawItems, Raw.values, value_raw item (by omega), values_rawItems items (by omega)]
      rfl

theorem memberValues_rawMembers (members : List (String × Written)) {depth : Nat}
    (fits : depth + nestingMembers members ≤ maxDepth) :
    Raw.memberValues depth (rawMembers members) = .ok (jsonMembers members) := by
  match members with
  | [] => rfl
  | (name, member) :: members =>
      rw [nestingMembers] at fits
      rw [rawMembers, Raw.memberValues, value_raw member (by omega),
        memberValues_rawMembers members (by omega)]
      rfl

end

theorem closed_of_checkEnd {ending : Ending} (h : Raw.checkEnd ending = .ok ()) :
    ending = .closed := by
  cases ending with
  | closed => rfl
  | broken fault => cases h

mutual

/-- Whatever reads as a value is a value as it is written. -/
theorem exists_written (tree : Raw) {depth : Nat} (within : depth ≤ maxDepth) {value : Json}
    (reads : Raw.value depth tree = .ok value) :
    ∃ written : Written, written.raw = tree ∧ written.json = value ∧
      depth + written.nesting ≤ maxDepth := by
  cases tree with
  | null =>
      cases reads
      exact ⟨null, rfl, rfl, within⟩
  | bool b =>
      cases reads
      exact ⟨bool b, rfl, rfl, within⟩
  | number n =>
      cases n with
      | error fault => cases reads
      | ok n =>
          cases reads
          exact ⟨number n, rfl, rfl, within⟩
  | string s =>
      cases s with
      | error fault => cases reads
      | ok s =>
          cases reads
          exact ⟨string s, rfl, rfl, within⟩
  | broken fault => cases reads
  | array items ending =>
      rw [Raw.value] at reads
      split at reads
      · cases reads
      · next deeper =>
        obtain ⟨values, items', reads⟩ := bind_eq_ok.mp reads
        obtain ⟨ends, reads⟩ := check_eq_ok.mp reads
        cases reads
        cases closed_of_checkEnd ends
        obtain ⟨written, rfl, rfl, fits⟩ :=
          exists_written_items items (Nat.lt_of_not_le deeper) items'
        exact ⟨array written, rfl, rfl, by rw [nesting]; omega⟩
  | object members ending =>
      rw [Raw.value] at reads
      split at reads
      · cases reads
      · next deeper =>
        obtain ⟨values, members', reads⟩ := bind_eq_ok.mp reads
        obtain ⟨ends, reads⟩ := check_eq_ok.mp reads
        cases reads
        cases closed_of_checkEnd ends
        obtain ⟨written, rfl, rfl, fits⟩ :=
          exists_written_members members (Nat.lt_of_not_le deeper) members'
        exact ⟨object written, rfl, rfl, by rw [nesting]; omega⟩

theorem exists_written_items (items : List Raw) {depth : Nat} (within : depth ≤ maxDepth)
    {values : List Json} (reads : Raw.values depth items = .ok values) :
    ∃ written : List Written, rawItems written = items ∧ jsonItems written = values ∧
      depth + nestingItems written ≤ maxDepth := by
  match items with
  | [] =>
      cases reads
      exact ⟨[], rfl, rfl, within⟩
  | item :: items =>
      rw [Raw.values] at reads
      obtain ⟨value, first, reads⟩ := bind_eq_ok.mp reads
      obtain ⟨values, rest, reads⟩ := bind_eq_ok.mp reads
      cases reads
      obtain ⟨head, rfl, rfl, headFits⟩ := exists_written item within first
      obtain ⟨tail, rfl, rfl, tailFits⟩ := exists_written_items items within rest
      exact ⟨head :: tail, rfl, rfl, by rw [nestingItems]; omega⟩

theorem exists_written_members (members : List (Except Fault String × Raw)) {depth : Nat}
    (within : depth ≤ maxDepth) {values : Entries Json}
    (reads : Raw.memberValues depth members = .ok values) :
    ∃ written : List (String × Written), rawMembers written = members ∧
      jsonMembers written = values ∧ depth + nestingMembers written ≤ maxDepth := by
  match members with
  | [] =>
      cases reads
      exact ⟨[], rfl, rfl, within⟩
  | (name, member) :: members =>
      rw [Raw.memberValues] at reads
      obtain ⟨text, rfl, content⟩ := bind_eq_ok.mp reads
      obtain ⟨value, first, content⟩ := bind_eq_ok.mp content
      obtain ⟨values, rest, content⟩ := bind_eq_ok.mp content
      cases content
      obtain ⟨head, rfl, rfl, headFits⟩ := exists_written member within first
      obtain ⟨tail, rfl, rfl, tailFits⟩ := exists_written_members members within rest
      exact ⟨(text, head) :: tail, rfl, rfl, by rw [nestingMembers]; omega⟩

end

theorem json_eq_object_iff {tree : Written} {body : Entries Json} :
    tree.json = .object body ↔
      ∃ members, tree = object members ∧ body = Entries.ofList (jsonMembers members) := by
  constructor
  · intro is
    cases tree with
    | object members =>
        cases is
        exact ⟨members, rfl, rfl⟩
    | null | bool | number | string | array => cases is
  · rintro ⟨members, rfl, rfl⟩
    rfl

end Written

end Rollup.Json
