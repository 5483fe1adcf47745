import Rollup.Proofs.Binary64.Rounding
import Rollup.Proofs.Bucketing.Starts
import Rollup.Proofs.Catalog.InMemory
import Rollup.Proofs.Engine.Execute

/-! # Fetching the rows of a bucket

A bucket of equal values, or of an interval of time, is described by a filter on its column. The
filters of all buckets from the top down to one are its key path, and fetching with the key path
brings the rows of that bucket.
-/

namespace Rollup

open Calendar (Instant Interval)

open Binary64 (ofInt)

/-! ## Times as floating-point numbers -/

/-- A floating-point number holds these milliseconds exactly. -/
def ExactTime (instant : Instant) : Prop := instant.natAbs ≤ 2 ^ 53

instance (instant : Instant) : Decidable (ExactTime instant) :=
  inferInstanceAs (Decidable (instant.natAbs ≤ 2 ^ 53))

/-- A value is null, or a time that a floating-point number holds exactly. -/
inductive Timely : Json → Prop where
  | null : Timely .null
  | millis {n : Int} : ExactTime n → Timely (.number (.int n))
  | text {s : String} : (∀ instant ∈ Instant.ofText? s, ExactTime instant) → Timely (.string s)

theorem fits_of_exactTime {n : Int} (exact : ExactTime n) : Word64.fits? n = some n := by
  refine Word64.fits?_eq_some_iff.mpr ⟨rfl, ?_⟩
  unfold ExactTime at exact
  unfold Word64.Holds Word64.least Word64.greatest
  omega

namespace Timely

theorem ofText {s : String} {n : Int} (read : Instant.ofText? s = some n) (exact : ExactTime n) :
    Timely (.string s) :=
  .text fun instant found => by
    rw [read] at found
    obtain rfl := Option.some.inj found
    exact exact

variable {value : Json} (timely : Timely value)

include timely

/-- A filter compares a value by the instant that a date histogram sees in it. -/
theorem quantity?_eq : Filter.quantity? value = (Instant.ofJson? value).map ofInt := by
  cases timely with
  | null => rfl
  | millis exact =>
      simp only [Filter.quantity?, Instant.ofJson?, Number.toInt?, fits_of_exactTime exact]
      rfl
  | text => rfl

theorem exactTime {instant : Instant} (read : Instant.ofJson? value = some instant) :
    ExactTime instant := by
  cases timely with
  | null => cases read
  | millis exact =>
      simp only [Instant.ofJson?, Number.toInt?, fits_of_exactTime exact] at read
      cases read
      exact exact
  | text each => exact each instant read

end Timely

namespace Filter

theorem acceptsKey_equals (row : Row) (column : String) (key : Key) :
    acceptsKey row (.equals column key) = true ↔
      Key.ofJson? ((row.lookup column).getD .null) = some key := beq_iff_eq

theorem acceptsKey_range (row : Row) (column : String) (start stop : Float) :
    acceptsKey row (.range column start stop) =
      (quantity? ((row.lookup column).getD .null)).any fun x => start ≤ x && x < stop := by
  rw [acceptsKey]
  cases row.lookup column <;> rfl

theorem quantity?_eq_none {value : Json} (null : value.isNull) : quantity? value = none := by
  cases value with
  | null => rfl
  | _ => cases null

/-- Between two exact times lie the values whose instant does. -/
theorem acceptsKey_between {row : Row} {column : String} {start stop instant : Instant}
    (timely : Timely ((row.lookup column).getD .null)) (hstart : ExactTime start)
    (hstop : ExactTime stop) (read : Instant.ofJson? ((row.lookup column).getD .null) = some instant) :
    acceptsKey row (.range column (ofInt start) (ofInt stop)) = true ↔
      start ≤ instant ∧ instant < stop := by
  have exact := timely.exactTime read
  rw [acceptsKey_range, timely.quantity?_eq, read, Option.map_some, Option.any_some,
    Bool.and_eq_true, decide_eq_true_eq, decide_eq_true_eq,
    Binary64.ofInt_le_iff hstart exact, Binary64.ofInt_lt_iff exact hstop]

end Filter

/-! ## The filter of a bucket -/

/-- The filter on the column of a node for a bucket: the key itself, or the time from the start of the
bucket up to that of the next one. -/
def Bucketing.pin? (method : Bucketing) (node : Node) (column : String) (key : Key) :
    Option KeyFilter :=
  match method, key with
  | terms, key => some (.equals column key)
  | dateHistogram, .missing => some (.equals column .missing)
  | dateHistogram, .date start => do
      let interval ← (DateHistogram.intervalOf node).toOption
      let stop ← interval.next start
      return .range column (ofInt start) (ofInt stop)
  | _, _ => none

def Node.pin? (node : Node) (key : Key) : Option KeyFilter :=
  match Method.ofName? node.typeName, node.field with
  | some (.bucketing method), some column => method.pin? node column key
  | _, _ => none

/-- The times that concern a bucket of a node are exact: those in its column, its start and that of the
next one. -/
structure Node.ExactTimes (node : Node) (key : Key) (rows : List Row) : Prop where
  values : ∀ column ∈ node.field, ∀ row ∈ rows, Timely ((row.lookup column).getD .null)
  bounds : ∀ interval start stop, DateHistogram.intervalOf node = .ok interval → key = .date start →
    interval.next start = some stop → ExactTime start ∧ ExactTime stop

/-- What a node counts a row of times under. -/
theorem keyOf?_dateHistogram {node : Node} {column : String} {interval : Interval}
    (named : Method.ofName? node.typeName = some (.bucketing .dateHistogram))
    (asked : node.field = some column) (is : DateHistogram.intervalOf node = .ok interval) (row : Row) :
    node.keyOf? row =
      if ((row.lookup column).getD .null).isNull then some .missing
      else ((Instant.ofJson? ((row.lookup column).getD .null)).bind interval.floor).map .date := by
  rw [Node.keyOf?, named, asked, Option.map_eq_bind]
  simp only [Bucketing.keyOf?, is]
  rfl

section Pins

variable {node : Node} {column : String} {interval : Interval} {row : Row}
  (named : Method.ofName? node.typeName = some (.bucketing .dateHistogram))
  (asked : node.field = some column) (is : DateHistogram.intervalOf node = .ok interval)

include named asked is

/-- The rows without a time are those of the missing key. -/
theorem accepts_missing :
    Filter.acceptsKey row (.equals column .missing) = true ↔ node.keyOf? row = some .missing := by
  rw [Filter.acceptsKey_equals, Key.ofJson?_eq_missing, keyOf?_dateHistogram named asked is]
  split
  · simp [*]
  · generalize (Instant.ofJson? _).bind _ = start
    cases start <;> simp [*]

/-- The rows from the start of an interval up to the next one are those of the interval, if all of them
have a key at all. -/
theorem accepts_between {n : Int} {stop : Instant}
    (next : interval.next (interval.startAt n) = some stop)
    (timely : Timely ((row.lookup column).getD .null)) (hstart : ExactTime (interval.startAt n))
    (hstop : ExactTime stop) (keyed : (node.keyOf? row).isSome) :
    Filter.acceptsKey row (.range column (ofInt (interval.startAt n)) (ofInt stop)) = true ↔
      node.keyOf? row = some (.date (interval.startAt n)) := by
  rw [keyOf?_dateHistogram named asked is] at keyed ⊢
  -- A null lies in no range; any other value has an instant, since the row has a key.
  split
  · simp [Filter.acceptsKey_range, Filter.quantity?_eq_none ‹_›]
  · rw [if_neg ‹_›] at keyed
    obtain ⟨key, keyed⟩ := Option.isSome_iff_exists.mp keyed
    obtain ⟨start, found, rfl⟩ := Option.map_eq_some_iff.mp keyed
    obtain ⟨instant, read, floor⟩ := Option.bind_eq_some_iff.mp found
    rw [found, Filter.acceptsKey_between timely hstart hstop read,
      ← Interval.floor_eq_iff (DateHistogram.positive_intervalOf is) next floor]
    simp

end Pins

/-- The filter of a bucket accepts the rows that are counted in it, among rows that all have a key. -/
theorem accepts_pin {node : Node} {key : Key} {filter : KeyFilter} {rows : List Row} {row : Row}
    (pinned : node.pin? key = some filter) (member : row ∈ rows) (keyed : (node.keyOf? row).isSome)
    (timed : Method.ofName? node.typeName = some (.bucketing .dateHistogram) →
      node.ExactTimes key rows ∧ ∃ interval, DateHistogram.intervalOf node = .ok interval ∧
        (key = .missing ∨ ∃ n, key = .date (interval.startAt n))) :
    Filter.acceptsKey row filter = true ↔ node.keyOf? row = some key := by
  unfold Node.pin? at pinned
  split at pinned
  · rename_i method column named asked
    cases method with
    | terms =>
        obtain rfl := Option.some.inj pinned
        rw [Filter.acceptsKey_equals, Node.keyOf?, named, asked]
        rfl
    | histogram => cases pinned
    | dateHistogram =>
        obtain ⟨exact, interval, is, rfl | ⟨n, rfl⟩⟩ := timed named
        · obtain rfl := Option.some.inj pinned
          exact accepts_missing named asked is
        · simp only [Bucketing.pin?, is] at pinned
          obtain ⟨_, ⟨⟩, pinned⟩ := Option.bind_eq_some_iff.mp pinned
          obtain ⟨stop, next, pinned⟩ := Option.bind_eq_some_iff.mp pinned
          obtain rfl := Option.some.inj pinned
          obtain ⟨hstart, hstop⟩ := exact.bounds interval _ stop is rfl next
          exact accepts_between named asked is next (exact.values column asked row member) hstart
            hstop keyed
  · cases pinned

theorem Catalog.keyOf?_project {node : Node} {columns : List String}
    (named : ∀ column ∈ node.field, column ∈ columns) (row : Row) :
    node.keyOf? (project columns row) = node.keyOf? row := by
  unfold Node.keyOf?
  split
  · rename_i asked
    rw [lookup_project, if_pos (named _ asked)]
    rfl
  · rfl

/-! ## Trails -/

/-- Nodes that stand in a row from the top down, each with the key of a bucket. -/
abbrev KeyTrail := List (Node × Key)

namespace KeyTrail

/-- The key path of a trail, if there is a filter for each bucket. -/
def keyPath? (trail : KeyTrail) : Option (List KeyFilter) :=
  trail.mapM fun (node, key) => node.pin? key

/-- Whether a row is counted in each bucket of a trail. -/
def holds (trail : KeyTrail) (row : Row) : Bool :=
  trail.all fun (node, key) => node.keyOf? row = some key

theorem keyPath?_cons {node : Node} {key : Key} {trail : KeyTrail} {keyPath : List KeyFilter}
    (h : keyPath? ((node, key) :: trail) = some keyPath) :
    ∃ filter rest, node.pin? key = some filter ∧ trail.keyPath? = some rest ∧
      keyPath = filter :: rest := by
  rw [keyPath?, List.mapM_cons] at h
  obtain ⟨filter, pinned, h⟩ := Option.bind_eq_some_iff.mp h
  obtain ⟨rest, below, h⟩ := Option.bind_eq_some_iff.mp h
  exact ⟨filter, rest, pinned, below, (Option.some.inj h).symm⟩

/-- The times that concern a trail are exact. -/
def ExactTimes (trail : KeyTrail) (rows : List Row) : Prop :=
  ∀ node key, (node, key) ∈ trail →
    Method.ofName? node.typeName = some (.bucketing .dateHistogram) → node.ExactTimes key rows

theorem ExactTimes.mono {trail : KeyTrail} {rows rows' : List Row} (exact : trail.ExactTimes rows)
    (sub : rows' ⊆ rows) : trail.ExactTimes rows' := by
  intro node key member dates
  have whole := exact node key member dates
  exact ⟨fun column asked row hrow => whole.values column asked row (sub hrow), whole.bounds⟩

theorem ExactTimes.tail {step : Node × Key} {trail : KeyTrail} {rows : List Row}
    (exact : ExactTimes (step :: trail) rows) : trail.ExactTimes rows :=
  fun node key member => exact node key (List.mem_cons_of_mem _ member)

theorem filter_holds_cons (node : Node) (key : Key) (trail : KeyTrail) (rows : List Row) :
    rows.filter (holds ((node, key) :: trail)) =
      (rows.filter (node.keyOf? · = some key)).filter trail.holds := by
  rw [List.filter_filter]
  exact List.filter_congr fun row _ => Bool.and_comm _ _

theorem filter_accepts_cons (filter : KeyFilter) (keyPath : List KeyFilter) (rows : List Row) :
    rows.filter (fun row => (filter :: keyPath).all (Filter.acceptsKey row)) =
      (rows.filter (Filter.acceptsKey · filter)).filter
        fun row => keyPath.all (Filter.acceptsKey row) := by
  rw [List.filter_filter]
  exact List.filter_congr fun row _ => Bool.and_comm _ _

end KeyTrail

namespace Site

/-- A trail from a result down to a bucket, and the rows that are counted in the bucket. -/
inductive Leads : Site → KeyTrail → Bucket → List Row → Prop where
  | here {site : Site} {buckets : List Bucket} {otherCount : Option Nat} {bucket : Bucket} :
      site.result = .buckets buckets otherCount → bucket ∈ buckets →
      Leads site [(site.node, bucket.key)] bucket (site.rowsOf bucket.key)
  | into {site : Site} {buckets : List Bucket} {otherCount : Option Nat} {outer : Bucket}
      {child : Node} {result : Result} {trail : KeyTrail} {bucket : Bucket} {rows : List Row} :
      site.result = .buckets buckets otherCount → outer ∈ buckets →
      child ∈ site.node.children → (child.name, result) ∈ outer.results →
      Leads ⟨child, site.rowsOf outer.key, outer.count, result⟩ trail bucket rows →
      Leads site ((site.node, outer.key) :: trail) bucket rows

section Bucket

variable [Memory] {limits : Limits} {site : Site} {buckets : List Bucket} {otherCount : Option Nat}
  {bucket : Bucket} (sound : site.Sound limits) (is : site.result = .buckets buckets otherCount)
  (member : bucket ∈ buckets)

include sound is member

/-- Pinning a bucket down leaves the rows that are counted in it, whatever columns are read of them. -/
theorem rowsOf_pin {filter : KeyFilter} (pinned : site.node.pin? bucket.key = some filter)
    {rows : List Row} {columns : List String}
    (projected : site.rows = rows.map (Catalog.project columns)) (named : ∀ column ∈ site.node.field, column ∈ columns)
    (exact : Method.ofName? site.node.typeName = some (.bucketing .dateHistogram) →
      site.node.ExactTimes bucket.key rows) :
    rows.filter (Filter.acceptsKey · filter) = rows.filter (site.node.keyOf? · = some bucket.key) ∧
      site.rowsOf bucket.key =
        (rows.filter (site.node.keyOf? · = some bucket.key)).map (Catalog.project columns) := by
  obtain ⟨method, grouping, group, hgroup, isA, grouped, same⟩ := group_of_bucket sound is member
  constructor
  · apply List.filter_congr
    intro row hrow
    have keyed := Bucketing.keyed_of_groupRows isA grouped (Catalog.project columns row)
      (projected ▸ List.mem_map_of_mem hrow)
    rw [Catalog.keyOf?_project named] at keyed
    rw [Bool.eq_iff_iff, decide_eq_true_eq]
    refine accepts_pin pinned hrow keyed fun dates => ⟨exact dates, ?_⟩
    cases isA.symm.trans dates
    rw [← same]
    exact Bucketing.startAt_of_groupRows dates grouped hgroup
  · rw [rowsOf, projected, List.filter_map]
    simp only [Function.comp_def, Catalog.keyOf?_project named]

end Bucket

/-- Along a trail the key path and the keys leave the same rows, and these are the rows of the bucket
that the trail leads to. -/
theorem rows_of_leads [Memory] {limits : Limits} {site : Site} {trail : KeyTrail} {bucket : Bucket}
    {own : List Row} (leads : site.Leads trail bucket own) (sound : site.Sound limits)
    {rows : List Row} {columns : List String}
    (projected : site.rows = rows.map (Catalog.project columns)) (named : site.node.named ⊆ columns)
    (exact : trail.ExactTimes rows) {keyPath : List KeyFilter}
    (pins : trail.keyPath? = some keyPath) :
    bucket.count = own.length ∧ own = (rows.filter trail.holds).map (Catalog.project columns) ∧
      rows.filter (fun row => keyPath.all (Filter.acceptsKey row)) = rows.filter trail.holds := by
  -- Each step narrows the rows of the table as it narrows those of the site.
  induction leads generalizing rows keyPath with
  | here is member =>
      obtain ⟨filter, rest, pinned, below, rfl⟩ := KeyTrail.keyPath?_cons pins
      obtain rfl := Option.some.inj below
      obtain ⟨same, own⟩ := rowsOf_pin sound is member pinned projected
        (fun column asked => named (named_of_field asked)) (exact _ _ List.mem_cons_self)
      have last (rows : List Row) : rows.filter (KeyTrail.holds []) = rows := List.filter_true rows
      rw [KeyTrail.filter_holds_cons, KeyTrail.filter_accepts_cons, same, last]
      exact ⟨(level_of_bucket sound is member).1, own, List.filter_true _⟩
  | into is member hchild hresult leads ih =>
      obtain ⟨filter, rest, pinned, below, rfl⟩ := KeyTrail.keyPath?_cons pins
      obtain ⟨same, own⟩ := rowsOf_pin sound is member pinned projected
        (fun column asked => named (named_of_field asked)) (exact _ _ List.mem_cons_self)
      rw [KeyTrail.filter_holds_cons, KeyTrail.filter_accepts_cons, same]
      exact ih (sound_of_below sound (.bucket is member hchild hresult)) own
        (List.Subset.trans (named_subset_of_mem hchild)
          (List.Subset.trans (named_children_subset _) named))
        (exact.tail.mono List.filter_sublist.subset) below

end Site

namespace Catalog

theorem eq_passing {filter : Option Json} {rows kept : List Row} (h : filtered filter rows = .ok kept) :
    kept = passing filter rows := by
  induction rows generalizing kept with
  | nil =>
      cases h
      rfl
  | cons row rows ih =>
      obtain ⟨accepted, evaluated, h⟩ := bind_eq_ok.mp h
      obtain ⟨rest, others, h⟩ := bind_eq_ok.mp h
      obtain rfl := Except.ok.inj h
      obtain rfl := ih others
      cases accepted <;> simp [passing, evaluated, Except.toOption]

section Answer

variable [Memory] {catalog : Catalog} {limits : Limits} {request : Request} {cancelled : Bool}
  {summary : Summary} {rows : List Row} (found : catalog.table request.table = .ok rows)
  (answered : (Engine.execute catalog.source limits request cancelled).answer = some (.ok summary))
  {node : Node} (hnode : node ∈ request.nodes) {result : Result}
  (member : (node.name, result) ∈ summary.results)

include found answered

theorem filtered_of_execute : filtered request.filter rows = .ok (passing request.filter rows) := by
  obtain ⟨-, counted, -⟩ := Engine.execute_eq_ok answered
  have matching := (count_matching catalog request).symm.trans counted
  rw [Catalog.matching, found] at matching
  obtain ⟨kept, filtered, -⟩ := map_eq_ok.mp matching
  exact filtered.trans (congrArg _ (eq_passing filtered))

include hnode member

/-- At the top of an answer stands what a node makes of the rows that pass the filter. -/
theorem sound_of_execute :
    catalog.fetch (Engine.scopeOf request node) =
        .ok ((passing request.filter rows).map (project node.columns)) ∧
      Site.Sound limits
        ⟨node, (passing request.filter rows).map (project node.columns), summary.count, result⟩ := by
  obtain ⟨valid, counted, built, level, resolved⟩ := Engine.execute_eq_ok answered
  have matching : catalog.matching request = .ok (passing request.filter rows) := by
    rw [Catalog.matching, found]
    exact filtered_of_execute found answered
  have fetch : catalog.fetch (Engine.scopeOf request node) =
      .ok ((passing request.filter rows).map (project node.columns)) := by
    rw [fetch_matching, matching]
    rfl
  have length : (passing request.filter rows).length = summary.count := by
    have same := (count_matching catalog request).symm.trans counted
    rw [matching] at same
    exact Except.ok.inj same
  have sound := Site.sound_of_level valid level resolved hnode member
  rw [Engine.fetchedRows, show catalog.source.fetch _ = _ from fetch, Except.toOption,
    Option.getD_some, List.length_map, length] at sound
  exact ⟨fetch, sound⟩

end Answer

/-- The rows of a table that pass a filter and are counted in every bucket of a trail. -/
def along (filter : Option Json) (trail : KeyTrail) (rows : List Row) : List Row :=
  (passing filter rows).filter trail.holds

/-- Fetching with the key path of a bucket brings its rows. Take a bucket in an answer over a catalog
that is reached by a trail of buckets of equal values and of intervals of time, where the times that
matter are exact. Its rows are those of the table that pass the filter of the request and are counted in
every bucket of the trail, in the order of the table; it counts as many; and they are the rows that are
fetched with the key path of the trail, whatever columns are asked for. -/
theorem fetch_keyPath [Memory] {catalog : Catalog} {limits : Limits} {request : Request}
    {cancelled : Bool} {summary : Summary} {rows : List Row}
    (found : catalog.table request.table = .ok rows)
    (answered : (Engine.execute catalog.source limits request cancelled).answer =
      some (.ok summary))
    {node : Node} (hnode : node ∈ request.nodes) {result : Result}
    (member : (node.name, result) ∈ summary.results) :
    ∃ fetched, catalog.fetch (Engine.scopeOf request node) = .ok fetched ∧
      ∀ trail bucket own, Site.Leads ⟨node, fetched, summary.count, result⟩ trail bucket own →
        ∀ keyPath, trail.keyPath? = some keyPath → trail.ExactTimes rows →
          own = (along request.filter trail rows).map (project node.columns) ∧
          bucket.count = (along request.filter trail rows).length ∧
          ∀ aggregation columns,
            catalog.fetch ⟨request.table, aggregation, columns, keyPath, request.filter⟩ =
              .ok ((along request.filter trail rows).map (project columns)) := by
  obtain ⟨fetch, sound⟩ := sound_of_execute found answered hnode member
  have valid := (Engine.execute_eq_ok answered).1
  refine ⟨_, fetch, fun trail bucket own leads keyPath pins exact => ?_⟩
  obtain ⟨count, same, agree⟩ := Site.rows_of_leads leads sound rfl
    (named_subset_columns valid hnode) (exact.mono List.filter_sublist.subset) pins
  refine ⟨same, ?_, fun aggregation columns => ?_⟩
  · rw [count, same, List.length_map, along]
  · rw [Catalog.fetch, found]
    simp only [bind, Except.bind, filtered_of_execute found answered, agree]
    rfl

/-! ## Departures of a line, month by month -/

def departures : List Row :=
  [[("line", .string "north"), ("at", .number (.int 86400000))],
   [("line", .string "south"), ("at", .string "1970-01-20")],
   [("line", .string "north"), ("at", .string "1970-01-31T23:59:59.999Z")],
   [("line", .string "north"), ("at", .string "1970-02-01T00:00:00Z")],
   [("line", .string "north")]]

def monthly : Node :=
  ⟨"monthly", "date_histogram", .bucketing, some "at", [("calendar_interval", .string "month")], []⟩

def lines : Node := ⟨"lines", "terms", .bucketing, some "line", [], [monthly]⟩

def inJanuary : Bucket := ⟨.date 0, 2, []⟩

def byMonth : Result :=
  .buckets [inJanuary, ⟨.date 2678400000, 1, []⟩, ⟨.missing, 1, []⟩] none

def northbound : Bucket := ⟨.str "north", 4, [("monthly", byMonth)]⟩

def southbound : Bucket := ⟨.str "south", 1, [("monthly", .buckets [⟨.date 0, 1, []⟩] none)]⟩

def byLine : Result := .buckets [northbound, southbound] none

def january : KeyTrail := [(lines, .str "north"), (monthly, .date 0)]

def januaryPath : List KeyFilter :=
  [.equals "line" (.str "north"), .range "at" (ofInt 0) (ofInt 2678400000)]

theorem exactTimes_january : january.ExactTimes departures := by
  intro node key member dates
  simp only [january, List.mem_cons, List.not_mem_nil, or_false, Prod.mk.injEq] at member
  rcases member with ⟨rfl, rfl⟩ | ⟨rfl, rfl⟩
  · cases dates
  refine ⟨?_, ?_⟩
  · rintro column ⟨⟩ row hrow
    simp only [departures, List.mem_cons, List.not_mem_nil, or_false] at hrow
    rcases hrow with rfl | rfl | rfl | rfl | rfl
    · exact .millis (by decide)
    · exact .ofText (n := 1641600000) rfl (by decide)
    · exact .ofText (n := 2678399999) rfl (by decide)
    · exact .ofText (n := 2678400000) rfl (by decide)
    · exact .null
  · rintro interval start stop ⟨⟩ ⟨⟩ ⟨⟩
    decide

theorem fetch_keyPath_january :
    (Engine.execute (source [("departures", departures)]) {} ⟨"departures", none, [lines]⟩
        false).answer = some (.ok ⟨5, [("lines", byLine)]⟩) ∧
      january.keyPath? = some januaryPath ∧
      fetch [("departures", departures)] ⟨"departures", "lines", ["at"], januaryPath, none⟩ =
        .ok [[("at", .number (.int 86400000))], [("at", .string "1970-01-31T23:59:59.999Z")]] := by
  have answered : (Engine.execute (source [("departures", departures)]) {}
      ⟨"departures", none, [lines]⟩ false).answer = some (.ok ⟨5, [("lines", byLine)]⟩) := by cbv
  refine ⟨answered, rfl, ?_⟩
  obtain ⟨fetched, -, brings⟩ := fetch_keyPath rfl answered (List.mem_singleton_self lines)
    (List.mem_singleton_self _)
  have last := @Site.Leads.here
    ⟨monthly, Site.rowsOf ⟨lines, fetched, 5, byLine⟩ northbound.key, 4, byMonth⟩ _ _ inJanuary rfl
    List.mem_cons_self
  have leads := @Site.Leads.into ⟨lines, fetched, 5, byLine⟩ _ _ northbound monthly _ _ _ _ rfl
    List.mem_cons_self (List.mem_singleton_self monthly) (List.mem_singleton_self _) last
  obtain ⟨-, -, fetched⟩ := brings _ _ _ leads januaryPath rfl exactTimes_january
  rw [fetched]
  cbv

end Catalog

end Rollup
