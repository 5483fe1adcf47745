import Rollup.Catalog.Basic
import Rollup.Proofs.Search.Breakdown
import Rollup.Proofs.Text.Utf8
import Rollup.Server.Service

/-! # Batches and single searches

Each pair of lines of a batch is answered as a single search of the same table would be, and its item
depends on nothing else in the batch. But if one of these searches breaks down there is no response to
the batch. A batch that cannot be read is refused before any search is made.
-/

namespace Rollup

/-! ## Lines -/

namespace Text

theorem sublist_endLine (reversed : List Char) : (endLine reversed).Sublist reversed.reverse := by
  unfold endLine
  split
  · rw [List.reverse_cons]
    exact List.sublist_append_left _ _
  · exact List.Sublist.refl _

/-- A line is a part of its text. -/
theorem sublist_of_mem_linesFrom {reversed text line : List Char}
    (member : line ∈ linesFrom reversed text) : line.Sublist (reversed.reverse ++ text) := by
  fun_induction linesFrom reversed text with
  | case1 reversed nothing => cases member
  | case2 reversed something =>
      rw [List.mem_singleton.mp member]
      exact List.sublist_append_left _ _
  | case3 reversed rest ih =>
      rcases List.mem_cons.mp member with rfl | later
      · exact (sublist_endLine reversed).trans (List.sublist_append_left _ _)
      · exact (ih later).trans ((List.sublist_cons_self _ _).trans (List.sublist_append_right _ _))
  | case4 reversed c rest _ ih =>
      have part := ih member
      rwa [List.reverse_cons, List.append_assoc] at part

theorem of_mem_filledLines {text line : List Char} (member : line ∈ filledLines text) :
    line.Sublist text ∧ ∃ c ∈ line, isBlank c = false := by
  obtain ⟨part, filled⟩ := List.mem_filter.mp member
  exact ⟨sublist_of_mem_linesFrom part, by simpa using filled⟩

end Text

namespace Utf8

/-- Bytes that are all blank in a narrow sense write blank characters only. -/
theorem isBlank_of_encodeChar {c : Char}
    (blank : ∀ b ∈ encodeChar c, Json.isBlankByte b ∨ b = 0x0C) : Text.isBlank c := by
  have bounds (n : Nat) (small : n < 0x100) (member : n.toUInt8 ∈ encodeChar c) :
      n = 0x20 ∨ n = 0x0A ∨ n = 0x0D ∨ n = 0x09 ∨ n = 0x0C := by
    have own := blank _ member
    have same : n.toUInt8.toNat = n := by
      rw [Nat.toUInt8_eq, UInt8.toNat_ofNat', Nat.mod_eq_of_lt small]
    simp only [Json.isBlankByte, Bool.or_eq_true, decide_eq_true_eq, ← UInt8.toNat_inj, same,
      or_assoc] at own
    exact own
  have valid : c.toNat < 0x110000 := by
    rcases c.valid with h | h
    · exact h.trans (by decide)
    · exact h.2
  by_cases one : c.toNat < 0x80
  · have own := bounds c.toNat (by omega) (by simp [encodeChar, one])
    simp only [Text.isBlank, Bool.or_eq_true, Bool.and_eq_true, decide_eq_true_eq, beq_iff_eq]
    omega
  -- The first byte of a longer character is none of the blank ones.
  by_cases two : c.toNat < 0x800
  · have own := bounds (0xC0 + c.toNat / 0x40) (by omega) (by simp [encodeChar, one, two])
    omega
  by_cases three : c.toNat < 0x10000
  · have own := bounds (0xE0 + c.toNat / 0x1000) (by omega) (by simp [encodeChar, one, two, three])
    omega
  · have own := bounds (0xF0 + c.toNat / 0x40000) (by omega) (by simp [encodeChar, one, two, three])
    omega

end Utf8

namespace Search

namespace Body

/-- Behind a line that is not blank stands no body that asks for nothing. -/
theorem ofBytesOrBlank_line {text line : List Char} (member : line ∈ Text.filledLines text) :
    ofBytesOrBlank (Utf8.encode line) = ofBytes (Utf8.encode line) := by
  obtain ⟨-, c, hc, filled⟩ := Text.of_mem_filledLines member
  refine if_neg fun blank => ?_
  rw [List.all_eq_true] at blank
  have own := Utf8.isBlank_of_encodeChar (c := c) fun b hb => by
    simpa using blank b (List.mem_flatMap.mpr ⟨c, hc, hb⟩)
  rw [own] at filled
  cases filled

end Body

namespace Batch

/-- The lines of pairs of a header and a body. -/
def linesOf (pairs : List (List Char × List Char)) : List (List Char) :=
  pairs.flatMap fun pair => [pair.1, pair.2]

/-- A pair of lines spells a search with its header. -/
structure Spells (pair : List Char × List Char) (search : Header × Body) : Prop where
  header : Header.ofBytes (Utf8.encode pair.1) = .ok search.1
  body : Body.ofBytes (Utf8.encode pair.2) = .ok search.2

/-- Both lines of a pair can be read. -/
def Readable (pair : List Char × List Char) : Prop := ∃ search, Spells pair search

theorem ofLines_eq_ok {pairs : List (List Char × List Char)} {batch : Batch} :
    ofLines (linesOf pairs) = .ok batch ↔ List.Forall₂ Spells pairs batch := by
  induction pairs generalizing batch with
  | nil => cases batch <;> simp [linesOf, ofLines]
  | cons pair pairs ih =>
      have step : ofLines (linesOf (pair :: pairs)) = .ok batch ↔
          ∃ header body rest, Header.ofBytes (Utf8.encode pair.1) = .ok header ∧
            Body.ofBytes (Utf8.encode pair.2) = .ok body ∧
            ofLines (linesOf pairs) = .ok rest ∧ (header, body) :: rest = batch := by
        show ofLines (pair.1 :: pair.2 :: linesOf pairs) = .ok batch ↔ _
        rw [ofLines]
        cases Header.ofBytes (Utf8.encode pair.1) with
        | error fault => simp [throw, throwThe, MonadExceptOf.throw, bind, Except.bind]
        | ok header =>
            cases Body.ofBytes (Utf8.encode pair.2) with
            | error fault => simp [throw, throwThe, MonadExceptOf.throw, bind, Except.bind, pure, Except.pure]
            | ok body =>
                cases ofLines (linesOf pairs) <;> simp [bind, Except.bind, pure, Except.pure]
      rw [step]
      constructor
      · rintro ⟨header, body, rest, hheader, hbody, hrest, rfl⟩
        exact .cons ⟨hheader, hbody⟩ (ih.mp hrest)
      · rintro (_ | ⟨spelled, rest⟩)
        exact ⟨_, _, _, spelled.header, spelled.body, ih.mpr rest, rfl⟩

/-- A batch is refused if some pair cannot be read. -/
theorem ofLines_unreadable {pairs : List (List Char × List Char)}
    (unreadable : ∃ pair ∈ pairs, ¬ Readable pair) : ∃ fault, ofLines (linesOf pairs) = .error fault := by
  cases read : ofLines (linesOf pairs) with
  | error fault => exact ⟨fault, rfl⟩
  | ok batch =>
      obtain ⟨pair, member, broken⟩ := unreadable
      obtain ⟨search, -, spelled⟩ := exists_related (ofLines_eq_ok.mp read).flip member
      exact absurd ⟨search, spelled⟩ broken

theorem ofBytes_text {bytes : List UInt8} {text : List Char} (spelled : Utf8.decode bytes = .ok text) :
    ofBytes bytes = if (Text.filledLines text).length % 2 = 0 then ofLines (Text.filledLines text)
      else .error .unpaired := by
  rw [ofBytes, spelled]

theorem length_linesOf (pairs : List (List Char × List Char)) :
    (linesOf pairs).length = 2 * pairs.length := by
  induction pairs with
  | nil => rfl
  | cons pair pairs ih =>
      rw [linesOf, List.flatMap_cons, List.length_append, ← linesOf, ih]
      simp
      omega

theorem ofBytes_pairs {bytes : List UInt8} {text : List Char} (spelled : Utf8.decode bytes = .ok text)
    {pairs : List (List Char × List Char)} (lines : Text.filledLines text = linesOf pairs) :
    ofBytes bytes = ofLines (linesOf pairs) := by
  rw [ofBytes_text spelled, lines, length_linesOf, if_pos (Nat.mul_mod_right 2 _)]

/-- Items are kept from a batch by a breakdown only. -/
theorem itemJson_raises (result : Except Error Json) :
    RaisesOnly (·.isBreakdown) (itemJson result) := by
  cases result with
  | ok answer => exact .ok
  | error error =>
      unfold itemJson
      dsimp only
      split
      · exact .error ‹_›
      · exact .ok

end Batch

end Search

namespace Server

open Search (Header Body)
open Search.Batch (linesOf Readable Spells)

/-- What a batch says of a search that is answered like this when it is asked for alone: the answer
itself, or of an error its type, its reason and its status. -/
def Response.asItem (response : Response) : Json :=
  match response.content with
  | .text _ => .null
  | .json body =>
      if response.status = 200 then body
      else
        let cause (name : String) : Json := ((body.member? "error").bind (·.member? name)).getD .null
        .object
          [("error", .object [("type", cause "type"), ("reason", cause "reason")]),
           ("status", (body.member? "status").getD .null)]

/-- An error is never told under the status of a success. -/
theorem status_ne_ok (error : Search.Error) : error.status ≠ 200 := by
  unfold Search.Error.status
  split
  · decide
  · decide
  · decide
  · split
    all_goals first | decide | (split <;> decide)

theorem asItem_ofResult? (result : Except Search.Error Json) :
    (Response.ofResult? result).map Response.asItem = (Search.Batch.itemJson result).toOption := by
  cases result with
  | ok answer => rfl
  | error error =>
      unfold Response.ofResult? Search.Batch.itemJson
      dsimp only
      split
      · rfl
      · show some (if error.status = 200 then error.json else _) = _
        rw [if_neg (status_ne_ok error)]
        rfl

/-- Where only breakdowns can go wrong, there is a response exactly if nothing does. -/
theorem ofResult?_of_raises {result : Except Search.Error Json}
    (raises : RaisesOnly (·.isBreakdown) result) :
    Response.ofResult? result = result.toOption.map Response.ok := by
  cases result with
  | ok answer => rfl
  | error error => exact if_pos (raises error rfl)

theorem toOption_mapM {α β : Type} (f : α → Except Search.Error β) (items : List α) :
    (items.mapM f).toOption = items.mapM fun item => (f item).toOption := by
  induction items with
  | nil => rfl
  | cons item items ih =>
      rw [List.mapM_cons, List.mapM_cons, ← ih]
      cases f item with
      | error error => rfl
      | ok result => cases items.mapM f <;> rfl

namespace Service

section Items

variable [Memory]

/-- What a batch says of a pair of lines: the header's table is searched, or else the one that the
batch is for, as it is by the body alone. There is nothing to say if that search is not responded to.
A batch holds no header that cannot be read. -/
def item (service : Service) (table : Option String) (pair : List Char × List Char) : Option Json :=
  match Header.ofBytes (Utf8.encode pair.1) with
  | .error _ => none
  | .ok header => match header.table <|> table with
      | some table =>
          (Response.ofResult? (service.search table (Utf8.encode pair.2))).map Response.asItem
      | none => some (.object
          [("error", .object
            [("type", .string "parse_exception"),
             ("reason", .string
               "Invalid request body: msearch item has no index and the request path names none")]),
           ("status", .ofNat 400)])

theorem search_line (service : Service) (table : String) {text : List Char}
    {pair : List Char × List Char} (line : pair.2 ∈ Text.filledLines text) {search : Header × Body}
    (spelled : Spells pair search) :
    service.search table (Utf8.encode pair.2) =
      Search.search service.source service.limits table search.2 := by
  rw [Service.search, Body.ofBytesOrBlank_line line, spelled.body]

theorem item_eq (service : Service) (table : Option String) {text : List Char}
    {pair : List Char × List Char} (line : pair.2 ∈ Text.filledLines text) {search : Header × Body}
    (spelled : Spells pair search) :
    (Search.Batch.itemJson
      (Search.Batch.item service.source service.limits table search.1 search.2)).toOption =
        service.item table pair := by
  rw [item, spelled.header, Search.Batch.item]
  dsimp only
  cases search.1.table <|> table with
  | none => rfl
  | some table =>
      dsimp only
      rw [asItem_ofResult?, service.search_line table line spelled]

/-- A pair of lines has no item only if the source breaks down or the body asks for too large a
window. -/
theorem breaksDown_of_item {service : Service} {table : Option String} {text : List Char}
    {pair : List Char × List Char} (line : pair.2 ∈ Text.filledLines text) {search : Header × Body}
    (spelled : Spells pair search) (none : service.item table pair = none) :
    service.source.BreaksDown ∨ search.2.Overreaches := by
  rw [item, spelled.header] at none
  dsimp only at none
  cases named : search.1.table <|> table with
  | none =>
      rw [named] at none
      cases none
  | some table =>
      rw [named] at none
      dsimp only at none
      rw [service.search_line table line spelled, Option.map_eq_none_iff] at none
      cases searched : Search.search service.source service.limits table search.2 with
      | ok answer =>
          rw [searched] at none
          cases none
      | error error =>
          rw [searched] at none
          unfold Response.ofResult? at none
          dsimp only at none
          split at none
          · exact Search.breaksDown_of_search searched ‹_›
          · cases none

/-- The answer to a batch has the items of its pairs, if it has any. -/
theorem answer_eq (service : Service) (table : Option String) {text : List Char}
    {pairs : List (List Char × List Char)} {searches : List (Header × Body)}
    (line : ∀ pair ∈ pairs, pair.2 ∈ Text.filledLines text)
    (each : List.Forall₂ Spells pairs searches) :
    Response.ofResult? (Search.Batch.answer service.source service.limits table searches) =
      (pairs.mapM (service.item table)).map fun items => .ok (Search.Batch.answerOf items) := by
  let told (search : Header × Body) : Except Search.Error Json :=
    Search.Batch.itemJson
      (Search.Batch.item service.source service.limits table search.1 search.2)
  have items : pairs.map (service.item table) =
      searches.map fun search => (told search).toOption := by
    refine (map_eq_of_related ((List.forall₂_and_left _ _).mpr ⟨line, each⟩) ?_).symm
    exact fun pair search related => service.item_eq table related.1 related.2
  have all : pairs.mapM (service.item table) = (searches.mapM told).toOption := by
    rw [toOption_mapM, ← Function.id_comp (service.item table), ← List.mapM_map, items, List.mapM_map]
    rfl
  have raises : RaisesOnly (·.isBreakdown) (Search.Batch.answerOf <$> searches.mapM told) :=
    .map (.mapM fun _ _ => Search.Batch.itemJson_raises _)
  rw [all]
  refine (ofResult?_of_raises raises).trans ?_
  cases searches.mapM told <;> rfl

theorem search_of_answer {source : Source} {limits : Limits} {table : String} {body : Search.Body}
    {nodes : List Node} {summary : Summary} (asked : body.nodes = .ok nodes)
    (answered : Engine.answer source limits ⟨table, body.filter, nodes⟩ = .ok summary) :
    Search.search source limits table body = .ok (Search.answer body summary) := by
  rw [Search.search, asked]
  simp only [bind, Except.bind, answered]
  rfl

/-- Each pair of lines is answered by an item of its own, which is what the search alone is answered.
So other pairs of a batch never change an item; but if one of these searches is not responded to, the
whole batch is not either. That happens only if the source breaks down, or where a body asks for a
moving average whose window is too large for the memory. A batch with a line too many, or with a pair
that cannot be read, is refused as a whole, and whatever the source would do about a search. As long as
bodies keep the limit, that is what the routes answer. -/
theorem batch_answers_searches (service : Service) (table : Option String) {body : List UInt8}
    {text : List Char} (spelled : Utf8.decode body = .ok text) :
    (∀ pairs, Text.filledLines text = linesOf pairs → (∀ pair ∈ pairs, Readable pair) →
      (Response.ofResult? (service.batch table body) =
        (pairs.mapM (service.item table)).map fun items =>
          .ok (.object [("took", .ofNat 0), ("responses", .array items)])) ∧
      ∀ pair ∈ pairs, service.item table pair = none →
        service.source.BreaksDown ∨ ∃ search, Spells pair search ∧ search.2.Overreaches) ∧
    ((Text.filledLines text).length % 2 = 1 ∨
        (∃ pairs, Text.filledLines text = linesOf pairs ∧ ∃ pair ∈ pairs, ¬ Readable pair) →
      ∃ fault, ∀ source limits,
        Response.ofResult? (({ service with source, limits } : Service).batch table body) =
          some { status := 400, content := .json (Search.Error.invalidBatch fault).json }) ∧
    (body.length ≤ service.bodyLimit →
      service.visit body (.batch table) = Response.ofResult? (service.batch table body) ∧
      ∀ line ∈ Text.filledLines text, ∀ name,
        service.visit (Utf8.encode line) (.search (some name)) =
          Response.ofResult? (service.search name (Utf8.encode line))) := by
  refine ⟨fun pairs lines readable => ?_, fun unread => ?_, fun within => ⟨?_, ?_⟩⟩
  · have line : ∀ pair ∈ pairs, pair.2 ∈ Text.filledLines text := fun pair member => by
      rw [lines]
      exact List.mem_flatMap.mpr ⟨pair, member, by simp⟩
    refine ⟨?_, fun pair member none => ?_⟩
    · obtain ⟨searches, each⟩ := exists_forall₂ readable
      have read : Search.Batch.ofBytes body = .ok searches := by
        rw [Search.Batch.ofBytes_pairs spelled lines]
        exact Search.Batch.ofLines_eq_ok.mpr each
      rw [batch, read]
      exact service.answer_eq table line each
    · obtain ⟨search, spelled⟩ := readable pair member
      exact (breaksDown_of_item (line pair member) spelled none).imp_right fun beyond =>
        ⟨search, spelled, beyond⟩
  · have refused : ∃ fault, Search.Batch.ofBytes body = .error fault := by
      rcases unread with odd | ⟨pairs, lines, unreadable⟩
      · rw [Search.Batch.ofBytes_text spelled, if_neg (by omega)]
        exact ⟨_, rfl⟩
      · rw [Search.Batch.ofBytes_pairs spelled lines]
        exact Search.Batch.ofLines_unreadable unreadable
    obtain ⟨fault, refused⟩ := refused
    refine ⟨fault, fun source limits => ?_⟩
    rw [batch, refused]
    rfl
  · exact if_neg (Nat.not_lt.mpr within)
  · intro line member name
    have part := (Text.of_mem_filledLines member).1.flatMap Utf8.encodeChar
    refine if_neg (Nat.not_lt.mpr (part.length_le.trans ?_))
    rwa [← Utf8.encode_decode spelled] at within

end Items

/-! ## A batch of two searches -/

def forVisits : List Char := "\x7b\"index\":\"visits\"\x7d".toList

def noMembers : List Char := "\x7b\x7d".toList

def noHits : List Char := "\x7b\"size\":0\x7d".toList

/-- The first search names its table, the second does not; a blank line stands between them. -/
def twoSearches : List (List Char × List Char) :=
  [(forVisits, noMembers), (noMembers, noHits)]

def twoSearchesText : List Char :=
  forVisits ++ '\n' :: noMembers ++ "\n \n".toList ++ noMembers ++ '\n' :: noHits

def visitsService : Service :=
  { source := Catalog.source [("visits", [[("city", .string "lyon")]])], limits := {} }

theorem batch_answers_searches_two :
    Utf8.decode (Utf8.encode twoSearchesText) = .ok twoSearchesText ∧
      Response.ofResult? (visitsService.batch none (Utf8.encode twoSearchesText)) =
        some (.ok (.object
          [("took", .ofNat 0),
           ("responses", .array
            [Search.answer {} { count := 1, results := [] },
             (Search.Error.invalidBatch .noTable).itemJson])])) := by
  have spelled : Utf8.decode (Utf8.encode twoSearchesText) = .ok twoSearchesText := by cbv
  have lines : Text.filledLines twoSearchesText = linesOf twoSearches := by cbv
  have named : Spells (forVisits, noMembers) ({ table := some "visits" }, {}) := ⟨by cbv, by cbv⟩
  have nameless : Spells (noMembers, noHits) ({}, { size := some 0 }) := ⟨by cbv, by cbv⟩
  have readable : ∀ pair ∈ twoSearches, Readable pair :=
    List.forall_mem_cons.mpr ⟨⟨_, named⟩, List.forall_mem_singleton.mpr ⟨_, nameless⟩⟩
  obtain ⟨answered, -⟩ :=
    (visitsService.batch_answers_searches none spelled).1 twoSearches lines readable
  refine ⟨spelled, answered.trans ?_⟩
  have counted : Engine.answer visitsService.source {} ⟨"visits", none, []⟩ =
      .ok { count := 1, results := [] } := by cbv
  have first : visitsService.item none (forVisits, noMembers) =
      some (Search.answer {} { count := 1, results := [] }) := by
    have found : Search.search visitsService.source {} "visits" {} =
        .ok (Search.answer {} { count := 1, results := [] }) := search_of_answer rfl counted
    rw [← visitsService.item_eq none (by rw [lines]; simp [linesOf, twoSearches]) named]
    show (Search.Batch.itemJson (Search.search visitsService.source {} "visits" {})).toOption = _
    rw [found]
    rfl
  have second : visitsService.item none (noMembers, noHits) =
      some (Search.Error.invalidBatch .noTable).itemJson := by
    rw [← visitsService.item_eq none (by rw [lines]; simp [linesOf, twoSearches]) nameless]
    rfl
  rw [twoSearches, List.mapM_cons, List.mapM_cons, List.mapM_nil, first, second]
  rfl

end Service

end Server

end Rollup
