import Rollup.Proofs.Catalog.InMemory
import Rollup.Proofs.Filter.Equality

/-! # Drilling down

The rows of a bucket of equal values can be asked for by a filter on its key. The answer is the
bucket itself, unless the filter lets a row pass whose value is another one and only equals the key
after rounding.
-/

namespace Rollup

/-- A column that has null, or nothing, or values of one kind. -/
def Uniform (kind : Scalar) (field : String) (rows : List Row) : Prop :=
  ∀ row ∈ rows, ∀ value, row.lookup field = some value → value = .null ∨ OfKind kind value

namespace Catalog

/-- The request for the rows that equal a key in a column. -/
def drillDown (table field : String) (key : Key) (nodes : List Node) : Request :=
  { table, filter := some (.object [("term", .object [(field, key.toJson)])]), nodes }

/-- Whether the filter lets a row pass. -/
def equalsKey (field : String) (key : Key) (row : Row) : Bool :=
  (row.lookup field).any fun value => Filter.equals value key.toJson

/-- Whether a row is in the bucket. -/
def inBucket (field : String) (key : Key) (row : Row) : Bool :=
  Filter.acceptsKey row (.equals field key)

/-- Whether the filter lets a row pass that is not in the bucket. -/
def mistaken (field : String) (key : Key) (row : Row) : Bool :=
  equalsKey field key row && !inBucket field key row

section Filters

variable {table field : String} {key : Key} {nodes : List Node} {rows : List Row}

theorem accepts_drillDown (row : Row) :
    accepts (drillDown table field key nodes).filter row = .ok (equalsKey field key row) := by
  cases key with
  | float x =>
      simp only [accepts, drillDown, Filter.accepts, Filter.term, Filter.onlyField, Key.toJson,
        Json.ofFloat, equalsKey]
      split <;> rfl
  | _ => rfl

theorem passing_drillDown :
    passing (drillDown table field key nodes).filter rows = rows.filter (equalsKey field key) := by
  unfold passing
  congr 1
  funext row
  rw [accepts_drillDown]
  rfl

theorem inBucket_iff {row : Row} :
    inBucket field key row = true ↔ Key.ofJson? ((row.lookup field).getD .null) = some key :=
  beq_iff_eq

theorem matching_table {catalog : Catalog} (found : catalog.table table = .ok rows) :
    catalog.matching ⟨table, none, nodes⟩ = .ok rows := by
  rw [matching_eq found fun _ _ => ⟨true, rfl⟩]
  exact congrArg Except.ok (List.filter_true rows)

theorem matching_drillDown {catalog : Catalog} (found : catalog.table table = .ok rows) :
    catalog.matching (drillDown table field key nodes) = .ok (rows.filter (equalsKey field key)) := by
  rw [matching_eq found fun row _ => ⟨_, accepts_drillDown row⟩, passing_drillDown]

variable {kind : Scalar} (uniform : Uniform kind field rows) (present : key ≠ .missing)

include uniform present

/-- A row of the bucket has a value of the kind of the column. -/
theorem value_of_inBucket {row : Row} (member : row ∈ rows) (own : inBucket field key row = true) :
    ∃ value, row.lookup field = some value ∧ OfKind kind value ∧ Key.ofJson? value = some key := by
  have keyed := inBucket_iff.mp own
  cases found : row.lookup field with
  | none =>
      rw [found] at keyed
      exact absurd (Option.some.inj keyed).symm present
  | some value =>
      rw [found] at keyed
      refine ⟨value, rfl, ?_, keyed⟩
      rcases uniform row member value found with rfl | ofKind
      · exact absurd (Option.some.inj keyed).symm present
      · exact ofKind

/-- The filter lets the rows of the bucket pass. -/
theorem equalsKey_of_inBucket {row : Row} (member : row ∈ rows)
    (own : inBucket field key row = true) : equalsKey field key row = true := by
  obtain ⟨value, found, ofKind, keyed⟩ := value_of_inBucket uniform present member own
  rw [equalsKey, found]
  exact Filter.equals_of_ofJson? ofKind.inRange keyed

/-- The rows that the filter lets pass are those of the bucket and the mistaken ones. -/
theorem length_filter_equalsKey : (rows.filter (equalsKey field key)).length =
    (rows.filter (inBucket field key)).length + (rows.filter (mistaken field key)).length := by
  have own : (rows.filter (equalsKey field key)).filter (inBucket field key) =
      rows.filter (inBucket field key) := by
    rw [List.filter_filter]
    apply List.filter_congr
    intro row member
    cases own : inBucket field key row with
    | false => rfl
    | true => exact equalsKey_of_inBucket uniform present member own
  have others : (rows.filter (equalsKey field key)).filter (!inBucket field key ·) =
      rows.filter (mistaken field key) := by
    rw [List.filter_filter]
    exact List.filter_congr fun row _ => Bool.and_comm _ _
  rw [List.length_eq_length_filter_add (inBucket field key), own, others]

theorem filter_equalsKey (none : ∀ row ∈ rows, mistaken field key row = false) :
    rows.filter (equalsKey field key) = rows.filter (inBucket field key) := by
  apply List.filter_congr
  intro row member
  have clear := none row member
  cases own : inBucket field key row with
  | true => exact equalsKey_of_inBucket uniform present member own
  | false => simpa [mistaken, own] using clear

/-- No row is mistaken for one of a bucket whose key is exact. -/
theorem not_mistaken {own row : Row} (hown : own ∈ rows) (kept : inBucket field key own = true)
    (exact : key.Exact) (member : row ∈ rows) : mistaken field key row = false := by
  obtain ⟨other, -, hother, keyed⟩ := value_of_inBucket uniform present hown kept
  by_contra lost
  obtain ⟨passes, outside⟩ := Bool.and_eq_true_iff.mp (Bool.eq_true_of_not_eq_false lost)
  obtain ⟨value, found, equal⟩ := (Option.any_eq_true _ _).mp passes
  have same := Filter.ofJson?_of_equals hother keyed exact (uniform row member value found) equal
  have inside : inBucket field key row = true := inBucket_iff.mpr (by rw [found]; exact same)
  rw [inside] at outside
  cases outside

end Filters

/-! ## The bucket -/

theorem keyOf?_withNulls (node : Node) (columns : List String) (row : Row) :
    node.keyOf? (withNulls columns row) = node.keyOf? row := by
  unfold Node.keyOf?
  split
  · rw [lookup_withNulls]
    split <;> rfl
  · rfl

theorem keyOf?_terms {node : Node} {field : String}
    (is : Method.ofName? node.typeName = some (.bucketing .terms)) (asked : node.field = some field)
    (row : Row) : node.keyOf? row = Key.ofJson? ((row.lookup field).getD .null) := by
  rw [Node.keyOf?, is, asked]
  rfl

/-- The answer to a forest is the same whatever columns are completed besides those it names. -/
theorem aggregate_withNulls [Memory] {limits : Limits} {nodes : List Node}
    {columns columns' : List String} (sub : Forest.named nodes ⊆ columns)
    (sub' : Forest.named nodes ⊆ columns') (rows : List Row) :
    Engine.aggregate limits nodes (rows.map (withNulls columns)) =
      Engine.aggregate limits nodes (rows.map (withNulls columns')) := by
  have alike : RowSet.Alike (Forest.named nodes) (.all (rows.map (withNulls columns')).toArray)
      (.all (rows.map (withNulls columns)).toArray) :=
    alikeOfMap rows fun row column named => by
      rw [lookup_withNulls, lookup_withNulls, if_pos (sub named), if_pos (sub' named)]
  simp only [Engine.aggregate, buildAll_alike limits nodes _ _ _ alike, List.length_map]

variable {catalog : Catalog} {limits : Limits} {table field : String} {rows : List Row}
  {nodes : List Node} {summary : Summary} {node : Node} {buckets : List Bucket}
  {other : Option Nat} {bucket : Bucket}

/-- What stands in a bucket of equal values at the top of an answer over a whole table. -/
theorem bucket_of_table [Memory] (found : catalog.table table = .ok rows)
    (answered : (Engine.execute catalog.source limits ⟨table, none, nodes⟩ false).answer =
      some (.ok summary))
    (hnode : node ∈ nodes) (is : Method.ofName? node.typeName = some (.bucketing .terms))
    (asked : node.field = some field)
    (result : summary.results.lookup node.name = some (.buckets buckets other))
    (member : bucket ∈ buckets) :
    (∃ row ∈ rows, inBucket field bucket.key row = true) ∧
      bucket.count = (rows.filter (inBucket field bucket.key)).length ∧
      Engine.aggregate limits node.children ((rows.filter (inBucket field bucket.key)).map
        (withNulls (Forest.named node.children))) = .ok ⟨bucket.count, bucket.results⟩ := by
  rw [Engine.execute_eq_aggregate (matching_table found), Option.some.injEq] at answered
  have sound := Engine.sound_of_aggregate answered hnode (mem_of_lookup result) .refl
  have keyed (row : Row) : node.keyOf? (withNulls (Forest.named nodes) row) = some bucket.key ↔
      inBucket field bucket.key row = true := by
    rw [keyOf?_withNulls, keyOf?_terms is asked, inBucket_iff]
  have own : (rows.map (withNulls (Forest.named nodes))).filter (node.keyOf? · = some bucket.key) =
      (rows.filter (inBucket field bucket.key)).map (withNulls (Forest.named nodes)) := by
    rw [List.filter_map]
    congr 1
    exact List.filter_congr fun row _ => by simp [keyed]
  have named : Forest.named node.children ⊆ Forest.named nodes :=
    List.Subset.trans (named_children_subset node) (named_subset_of_mem hnode)
  obtain ⟨completed, hcompleted, hkey⟩ := Site.row_of_bucket sound rfl member is
  obtain ⟨row, hrow, rfl⟩ := List.mem_map.mp hcompleted
  obtain ⟨count, built, evaluated, within, resolved⟩ := Site.level_of_bucket sound rfl member
  rw [Site.rowsOf, own] at count evaluated
  refine ⟨⟨row, hrow, (keyed row).mp hkey⟩, count.trans (List.length_map _), ?_⟩
  rw [aggregate_withNulls (List.Subset.refl _) named]
  exact Engine.aggregate_eq_ok.mpr ⟨sound.below, built, evaluated, within, resolved, count⟩

/-- Drilling down gives the numbers of the bucket. Over a whole table whose column has values of one
kind, the filter on the key of a bucket lets as many rows pass as the bucket counts, and those that are
mistaken. Exactly if there are none of these, the forest below the bucket has the answer that stands in
the bucket. A key that is exact has none. -/
theorem drill_down [Memory] (found : catalog.table table = .ok rows) {kind : Scalar}
    (uniform : Uniform kind field rows)
    (answered : (Engine.execute catalog.source limits ⟨table, none, nodes⟩ false).answer =
      some (.ok summary))
    (hnode : node ∈ nodes) (is : Method.ofName? node.typeName = some (.bucketing .terms))
    (asked : node.field = some field)
    (result : summary.results.lookup node.name = some (.buckets buckets other))
    (member : bucket ∈ buckets) (present : bucket.key ≠ .missing) :
    catalog.count table (drillDown table field bucket.key node.children).filter =
        .ok (bucket.count + (rows.filter (mistaken field bucket.key)).length) ∧
      ((Engine.execute catalog.source limits (drillDown table field bucket.key node.children)
          false).answer = some (.ok ⟨bucket.count, bucket.results⟩) ↔
        ∀ row ∈ rows, mistaken field bucket.key row = false) ∧
      (bucket.key.Exact → ∀ row ∈ rows, mistaken field bucket.key row = false) := by
  obtain ⟨⟨row, hrow, kept⟩, count, below⟩ :=
    bucket_of_table found answered hnode is asked result member
  have matching : catalog.matching (drillDown table field bucket.key node.children) =
      .ok (rows.filter (equalsKey field bucket.key)) := matching_drillDown found
  have split := length_filter_equalsKey uniform present
  refine ⟨?_, ?_, fun exact _ => not_mistaken uniform present hrow kept exact⟩
  · have counted := count_matching catalog (drillDown table field bucket.key node.children)
    rw [matching] at counted
    rw [count, ← split]
    exact counted
  · rw [Engine.execute_eq_aggregate matching, Option.some.injEq]
    constructor
    · intro same
      obtain ⟨-, built, -, -, -, counted⟩ := Engine.aggregate_eq_ok.mp same
      rw [List.length_map] at counted
      change bucket.count = _ at counted
      have none : rows.filter (mistaken field bucket.key) = [] :=
        List.eq_nil_of_length_eq_zero (by omega)
      exact fun row member => Bool.eq_false_of_not_eq_true (List.filter_eq_nil_iff.mp none row member)
    · intro none
      rw [filter_equalsKey uniform present none]
      exact below

/-! ## Tickets with large numbers -/

def ticket (id : Int) (owner : String) : Row :=
  [("id", .number (.int id)), ("owner", .string owner)]

/-- Past 2⁵³ the second number rounds to the first one. -/
def tickets : List Row :=
  [ticket 9007199254740992 "ann", ticket 9007199254740993 "bea", ticket 7 "ann"]

def owners : Node := ⟨"owners", "terms", .bucketing, some "owner", [], []⟩

def tally : Node := ⟨"tally", "terms", .bucketing, some "id", [], [owners]⟩

def ownedBy (owner : String) : Entries Result := [("owners", .buckets [⟨.str owner, 1, []⟩] none)]

def ticketsById : Summary :=
  { count := 3
    results := [("tally", .buckets
      [⟨.int 7, 1, ownedBy "ann"⟩, ⟨.int 9007199254740992, 1, ownedBy "ann"⟩,
       ⟨.int 9007199254740993, 1, ownedBy "bea"⟩] none)] }

theorem uniform_tickets : Uniform .integer "id" tickets := by
  intro row member value found
  simp only [tickets, List.mem_cons, List.not_mem_nil, or_false] at member
  rcases member with rfl | rfl | rfl <;> cases found <;>
    exact .inr (.integer (by constructor <;> decide))

theorem drill_down_tickets :
    (Engine.execute (source [("tickets", tickets)]) {} ⟨"tickets", none, [tally]⟩ false).answer =
        some (.ok ticketsById) ∧
      (Engine.execute (source [("tickets", tickets)]) {}
        (drillDown "tickets" "id" (.int 7) [owners]) false).answer =
          some (.ok ⟨1, ownedBy "ann"⟩) ∧
      count [("tickets", tickets)] "tickets"
        (drillDown "tickets" "id" (.int 9007199254740993) [owners]).filter = .ok (1 + 1) := by
  have answered : (Engine.execute (source [("tickets", tickets)]) {} ⟨"tickets", none, [tally]⟩
      false).answer = some (.ok ticketsById) := by cbv
  have found : table [("tickets", tickets)] "tickets" = .ok tickets := rfl
  have present (id : Int) : Key.int id ≠ .missing := by simp
  obtain ⟨-, agrees, exact⟩ := drill_down found uniform_tickets answered
    (List.mem_singleton_self tally) rfl rfl rfl List.mem_cons_self (present _)
  obtain ⟨counted, -⟩ := drill_down found uniform_tickets answered
    (List.mem_singleton_self tally) rfl rfl rfl
    (List.mem_cons_of_mem _ (List.mem_cons_of_mem _ List.mem_cons_self)) (present _)
  exact ⟨answered, agrees.mpr (exact (by decide)), counted⟩

end Catalog

end Rollup
