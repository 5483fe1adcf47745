import Mathlib.Data.List.Basic
import Mathlib.Data.List.TakeWhile
import Rollup.Aggregation.Path

/-! # The grammar of bucket paths

A text names a path if it holds the mark `>` at most once and a name stands wherever one is due. A text
without the mark is split at its first point, and so is what stands behind the mark, but never what
stands before it. Writing a path down undoes reading it, so no two texts name one path. The paths that
are read back from what is written for them are those that hold nothing that would be taken for a mark,
for a point before the property, or for the count.
-/

namespace Rollup

namespace PropertyPath

/-- What stands before the first point of a text, or all of it. -/
def stem (text : String) : String := String.ofList (text.toList.takeWhile (· ≠ '.'))

/-- The name, and behind a point the property if there is one. -/
def toText (path : PropertyPath) : String :=
  match path.property with
  | none => path.name
  | some property => path.name ++ "." ++ property

/-- Paths that a text without marks can name. -/
structure Nameable (path : PropertyPath) : Prop where
  named : path.name ≠ ""
  unpointed : '.' ∉ path.name.toList
  unmarked : '>' ∉ path.name.toList
  property_unmarked : ∀ property ∈ path.property, '>' ∉ property.toList

end PropertyPath

namespace BucketsPath

open PropertyPath (stem)

/-- At most one mark, and a name wherever one is due. Where there is a mark, a text is divided by it in
one way only (`eq_of_marked`). -/
structure Grammatical (text : String) : Prop where
  oneMark : text.toList.count '>' ≤ 1
  alone : '>' ∉ text.toList → stem text ≠ ""
  inside : ∀ sibling inner, text = sibling ++ ">" ++ inner →
    sibling ≠ "" ∧ (inner = "_count" ∨ stem inner ≠ "")

/-- The sibling, and behind the mark what is read in its buckets. -/
def toText : BucketsPath → String
  | ⟨sibling, .itself property⟩ => PropertyPath.toText ⟨sibling, property⟩
  | ⟨sibling, .count⟩ => sibling ++ ">" ++ "_count"
  | ⟨sibling, .metric inner⟩ => sibling ++ ">" ++ inner.toText

/-- Paths that a text can name. A sibling whose buckets are read may hold points, and a child may be
called like the count if a property of it is read. -/
inductive Nameable : BucketsPath → Prop where
  | itself {path : PropertyPath} (nameable : path.Nameable) :
      Nameable ⟨path.name, .itself path.property⟩
  | count {sibling : String} (named : sibling ≠ "") (unmarked : '>' ∉ sibling.toList) :
      Nameable ⟨sibling, .count⟩
  | metric {sibling : String} {inner : PropertyPath} (named : sibling ≠ "")
      (unmarked : '>' ∉ sibling.toList) (nameable : inner.Nameable)
      (apart : inner ≠ ⟨"_count", none⟩) : Nameable ⟨sibling, .metric inner⟩

end BucketsPath

/-- A separator is absent from a text, or it divides the text where it stands first. -/
theorem absent_or_first (separator : Char) (text : String) :
    separator ∉ text.toList ∨ ∃ before after,
      separator ∉ before.toList ∧ text = before ++ String.singleton separator ++ after := by
  by_cases member : separator ∈ text.toList
  · obtain ⟨before, after, split, absent⟩ := List.eq_append_cons_of_mem member
    refine .inr ⟨String.ofList before, String.ofList after, by simpa using absent, ?_⟩
    simp [← String.toList_inj, split]
  · exact .inl member

/-! ## Around the first point -/

namespace PropertyPath

variable {text name property : String} {path : PropertyPath}

theorem unpointed_or_pointed (text : String) :
    '.' ∉ text.toList ∨ ∃ name property, '.' ∉ name.toList ∧ text = name ++ "." ++ property :=
  absent_or_first '.' text

theorem ofText_unpointed (unpointed : '.' ∉ text.toList) : ofText text = ⟨text, none⟩ := by
  have all : text.toList.dropWhile (· ≠ '.') = [] := by
    rw [List.dropWhile_eq_nil_iff]
    intro c member
    simpa using ne_of_mem_of_not_mem member unpointed
  simp only [ofText, all]

theorem ofText_pointed (unpointed : '.' ∉ name.toList) :
    ofText (name ++ "." ++ property) = ⟨name, some property⟩ := by
  have passed : ∀ c ∈ name.toList, decide (c ≠ '.') = true := by
    intro c member
    simpa using ne_of_mem_of_not_mem member unpointed
  have chars : (name ++ "." ++ property).toList = name.toList ++ '.' :: property.toList := by simp
  simp only [ofText, chars, List.takeWhile_append_of_pos passed, List.dropWhile_append_of_pos passed]
  simp

theorem name_ofText (text : String) : (ofText text).name = stem text := by
  have halves := List.takeWhile_append_dropWhile (p := (· ≠ '.')) (l := text.toList)
  simp only [ofText, stem]
  split
  case h_1 nothing =>
    rw [nothing, List.append_nil] at halves
    rw [halves, String.ofList_toList]
  case h_2 => rfl

theorem toText_ofText (text : String) : (ofText text).toText = text := by
  obtain unpointed | ⟨name, property, unpointed, rfl⟩ := unpointed_or_pointed text
  · rw [ofText_unpointed unpointed, toText]
  · rw [ofText_pointed unpointed, toText]

theorem ofText_toText (unpointed : '.' ∉ path.name.toList) : ofText path.toText = path := by
  obtain ⟨name, property⟩ := path
  cases property with
  | none => exact ofText_unpointed unpointed
  | some property => exact ofText_pointed unpointed

theorem nameable_ofText (unmarked : '>' ∉ text.toList) (named : stem text ≠ "") :
    (ofText text).Nameable := by
  rw [← name_ofText] at named
  obtain unpointed | ⟨name, property, unpointed, rfl⟩ := unpointed_or_pointed text
  · rw [ofText_unpointed unpointed] at named ⊢
    exact ⟨named, unpointed, unmarked, by simp⟩
  · rw [ofText_pointed unpointed] at named ⊢
    simp only [String.toList_append, List.mem_append, not_or] at unmarked
    obtain ⟨⟨name_unmarked, -⟩, property_unmarked⟩ := unmarked
    exact ⟨named, unpointed, name_unmarked, by simpa using property_unmarked⟩

theorem Nameable.toText_unmarked (nameable : path.Nameable) : '>' ∉ path.toText.toList := by
  obtain ⟨name, property⟩ := path
  cases property with
  | none => exact nameable.unmarked
  | some property =>
      have point : '>' ∉ ".".toList := by decide
      simp only [toText, String.toList_append, List.mem_append, not_or]
      exact ⟨⟨nameable.unmarked, point⟩, nameable.property_unmarked property rfl⟩

theorem Nameable.stem_toText (nameable : path.Nameable) : stem path.toText ≠ "" := by
  rw [← name_ofText, ofText_toText nameable.unpointed]
  exact nameable.named

end PropertyPath

/-! ## Around the mark -/

namespace BucketsPath

open PropertyPath (stem)

variable {text sibling middle inner rest : String} {path : BucketsPath}

/-- A text by its marks: none, one, or a second behind the first. What is read from a text, and whether it
is grammatical, is told for each of the three. -/
inductive Cut : String → Prop where
  | alone {text : String} (unmarked : '>' ∉ text.toList) : Cut text
  | inside {sibling inner : String} (before : '>' ∉ sibling.toList) (after : '>' ∉ inner.toList) :
      Cut (sibling ++ ">" ++ inner)
  | again {sibling middle rest : String} (before : '>' ∉ sibling.toList)
      (between : '>' ∉ middle.toList) : Cut (sibling ++ ">" ++ (middle ++ ">" ++ rest))

theorem cut_of (text : String) : Cut text := by
  obtain unmarked | ⟨sibling, behind, before, rfl⟩ := absent_or_first '>' text
  · exact .alone unmarked
  obtain after | ⟨middle, rest, between, rfl⟩ := absent_or_first '>' behind
  · exact .inside before after
  · exact .again before between

theorem toList_marked (sibling inner : String) :
    (sibling ++ ">" ++ inner).toList = sibling.toList ++ '>' :: inner.toList := by
  simp

theorem pieces_eq_splitOn (separator : Char) (text : List Char) :
    pieces separator text = text.splitOn separator := by
  induction text with
  | nil => rfl
  | cons c rest ih =>
      rw [pieces, List.splitOn_cons_eq_if_modifyHead, ih]
      obtain ⟨piece, others, split⟩ :=
        List.exists_cons_of_ne_nil (List.splitOn_ne_nil separator rest)
      by_cases is : c = separator <;> simp [is, split]

theorem pieces_unmarked (unmarked : '>' ∉ text.toList) : pieces '>' text.toList = [text.toList] := by
  rw [pieces_eq_splitOn, List.splitOn_eq_singleton unmarked]

theorem pieces_marked (before : '>' ∉ sibling.toList) :
    pieces '>' (sibling ++ ">" ++ rest).toList = sibling.toList :: pieces '>' rest.toList := by
  rw [toList_marked, pieces_eq_splitOn, pieces_eq_splitOn,
    List.splitOn_append_cons_self_of_not_mem before]

theorem ofText?_alone (unmarked : '>' ∉ text.toList) :
    ofText? text = if stem text = "" then none
      else some ⟨(PropertyPath.ofText text).name, .itself (PropertyPath.ofText text).property⟩ := by
  simp [ofText?, pieces_unmarked unmarked, PropertyPath.name_ofText]

theorem ofText?_inside (before : '>' ∉ sibling.toList) (after : '>' ∉ inner.toList) :
    ofText? (sibling ++ ">" ++ inner) =
      if sibling = "" then none
      else if inner = "_count" then some ⟨sibling, .count⟩
      else if stem inner = "" then none
      else some ⟨sibling, .metric (PropertyPath.ofText inner)⟩ := by
  rw [ofText?, pieces_marked before, pieces_unmarked after]
  simp [PropertyPath.name_ofText]

theorem ofText?_again (before : '>' ∉ sibling.toList) (between : '>' ∉ middle.toList) :
    ofText? (sibling ++ ">" ++ (middle ++ ">" ++ rest)) = none := by
  obtain ⟨piece, others, more⟩ : ∃ piece others, pieces '>' rest.toList = piece :: others := by
    rw [pieces_eq_splitOn]
    exact List.exists_cons_of_ne_nil (List.splitOn_ne_nil '>' rest.toList)
  rw [ofText?, pieces_marked before, pieces_marked between, more]
  rfl

/-! ## Reading and writing -/

theorem nameable_written_of_ofText? (read : ofText? text = some path) :
    path.Nameable ∧ path.toText = text := by
  cases cut_of text with
  | alone unmarked =>
      rw [ofText?_alone unmarked] at read
      split at read
      case isTrue => cases read
      case isFalse named =>
        cases read
        have nameable := PropertyPath.nameable_ofText unmarked named
        exact ⟨.itself nameable, PropertyPath.toText_ofText text⟩
  | @inside sibling inner before after =>
      rw [ofText?_inside before after] at read
      split_ifs at read with unnamed counts bare
      · cases read
        rw [counts]
        exact ⟨.count unnamed before, rfl⟩
      · cases read
        have written := PropertyPath.toText_ofText inner
        refine ⟨.metric unnamed before (PropertyPath.nameable_ofText after bare) ?_, ?_⟩
        · intro is
          rw [is] at written
          exact counts written.symm
        · rw [toText, written]
  | again before between =>
      rw [ofText?_again before between] at read
      cases read

theorem Nameable.ofText?_toText (nameable : path.Nameable) : ofText? path.toText = some path := by
  cases nameable with
  | @itself path nameable =>
      have back := PropertyPath.ofText_toText nameable.unpointed
      show ofText? path.toText = _
      rw [ofText?_alone nameable.toText_unmarked, if_neg nameable.stem_toText, back]
  | count named unmarked =>
      rw [toText, ofText?_inside unmarked (by decide), if_neg named, if_pos rfl]
  | @metric sibling inner named unmarked nameable apart =>
      have back := PropertyPath.ofText_toText nameable.unpointed
      have other : inner.toText ≠ "_count" := by
        intro is
        rw [is] at back
        exact apart back.symm
      rw [toText, ofText?_inside unmarked nameable.toText_unmarked, if_neg named, if_neg other,
        if_neg nameable.stem_toText, back]

/-- Exactly the nameable paths are read, each from what is written for it. -/
theorem ofText?_eq_some_iff : ofText? text = some path ↔ path.Nameable ∧ path.toText = text := by
  constructor
  · exact nameable_written_of_ofText?
  · rintro ⟨nameable, rfl⟩
    exact nameable.ofText?_toText

/-! ## The grammar -/

theorem count_marked (sibling inner : String) :
    (sibling ++ ">" ++ inner).toList.count '>' =
      sibling.toList.count '>' + 1 + inner.toList.count '>' := by
  rw [toList_marked, List.count_append, List.count_cons_self]
  omega

/-- A text with one mark is divided by it in one way. -/
theorem eq_of_marked (before : '>' ∉ sibling.toList) (after : '>' ∉ inner.toList)
    {sibling' inner' : String} (same : sibling ++ ">" ++ inner = sibling' ++ ">" ++ inner') :
    sibling = sibling' ∧ inner = inner' := by
  rw [← String.toList_inj, toList_marked, toList_marked,
    List.append_cons_inj_of_notMem before after, String.toList_inj, String.toList_inj] at same
  obtain ⟨outside, -, within⟩ := same
  exact ⟨outside, within⟩

theorem grammatical_alone (unmarked : '>' ∉ text.toList) : Grammatical text ↔ stem text ≠ "" := by
  constructor
  · intro grammatical
    exact grammatical.alone unmarked
  · intro named
    refine ⟨?_, fun _ => named, ?_⟩
    · rw [List.count_eq_zero.mpr unmarked]
      exact Nat.zero_le 1
    · rintro sibling inner rfl
      exact absurd (by simp) unmarked

theorem grammatical_inside (before : '>' ∉ sibling.toList) (after : '>' ∉ inner.toList) :
    Grammatical (sibling ++ ">" ++ inner) ↔ sibling ≠ "" ∧ (inner = "_count" ∨ stem inner ≠ "") := by
  constructor
  · intro grammatical
    exact grammatical.inside sibling inner rfl
  · intro named
    refine ⟨?_, fun unmarked => absurd (by simp) unmarked, ?_⟩
    · rw [count_marked, List.count_eq_zero.mpr before, List.count_eq_zero.mpr after]
    · intro sibling' inner' same
      obtain ⟨rfl, rfl⟩ := eq_of_marked before after same
      exact named

theorem not_grammatical_again :
    ¬ Grammatical (sibling ++ ">" ++ (middle ++ ">" ++ rest)) := by
  intro grammatical
  have oneMark := grammatical.oneMark
  rw [count_marked, count_marked] at oneMark
  omega

theorem exists_path_iff (text : String) :
    (∃ path, ofText? text = some path) ↔ Grammatical text := by
  cases cut_of text with
  | alone unmarked =>
      rw [grammatical_alone unmarked, ofText?_alone unmarked]
      split
      case isTrue unnamed => simp [unnamed]
      case isFalse named => simp [named]
  | @inside sibling inner before after =>
      rw [grammatical_inside before after, ofText?_inside before after]
      split_ifs with unnamed counts bare
      · simp [unnamed]
      · simp [unnamed, counts]
      · simp [counts, bare]
      · simp [unnamed, bare]
  | again before between =>
      rw [ofText?_again before between]
      simp [not_grammatical_again]

/-- A text is read as a path if and only if it is grammatical. Whatever is read is written back as the
text, so that no other text is read as the same path, and exactly the nameable paths are read back from
what is written for them. -/
theorem reads_grammar (text : String) (path : BucketsPath) :
    ((∃ read, ofText? text = some read) ↔ Grammatical text) ∧
      (ofText? text = some path →
        path.toText = text ∧ ∀ other, ofText? other = some path → other = text) ∧
      (ofText? path.toText = some path ↔ path.Nameable) := by
  refine ⟨exists_path_iff text, ?_, ofText?_eq_some_iff.trans (and_iff_left rfl)⟩
  intro read
  obtain ⟨-, written⟩ := ofText?_eq_some_iff.mp read
  refine ⟨written, fun other readToo => ?_⟩
  obtain ⟨-, writtenToo⟩ := ofText?_eq_some_iff.mp readToo
  exact writtenToo.symm.trans written

theorem reads_grammar_childCalledCount :
    let text := "per.month>_count.99.9"
    let path : BucketsPath := ⟨"per.month", .metric ⟨"_count", some "99.9"⟩⟩
    ofText? text = some path ∧ Grammatical text ∧ path.toText = text ∧ path.Nameable := by
  intro text path
  have read : ofText? text = some path := by decide
  obtain ⟨exists_iff, lossless, nameable_iff⟩ := reads_grammar text path
  obtain ⟨written, -⟩ := lossless read
  refine ⟨read, exists_iff.mp ⟨path, read⟩, written, nameable_iff.mp ?_⟩
  rw [written, read]

end BucketsPath

end Rollup
