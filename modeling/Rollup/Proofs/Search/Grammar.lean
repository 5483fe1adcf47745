import Rollup.Proofs.Json.Written
import Rollup.Search.Definition

/-! # The grammar of aggregation definitions

Definitions are read member by member, with counts of what has been seen. What is accepted is told
here without them, by the tree alone: which names a definition may hold and how often, at every
depth and in every order. What is accepted is also read in full, in the order of the text.
-/

namespace Rollup.Search

open Json (Raw Written)

/-- Names under which a definition holds definitions of its own. -/
def nestedNames : List String := ["aggs", "aggregations"]

/-- Names of a definition's members that are no type. -/
def reservedNames : List String := nestedNames ++ ["meta"]

/-- Members that hold definitions. -/
def nestedMembers (members : List (String × Written)) : List (String × Written) :=
  members.filter (·.1 ∈ nestedNames)

/-- Members that name a type. -/
def typeMembers (members : List (String × Written)) : List (String × Written) :=
  members.filter (·.1 ∉ reservedNames)

mutual

/-- An object of definitions whose names are distinct. -/
inductive IsDefinitions : Written → Prop where
  | object {members : List (String × Written)} (distinct : (members.map (·.1)).Nodup)
      (each : ∀ member ∈ members, IsDefinition member.2) : IsDefinitions (.object members)

/-- An object with exactly one type, whose body is an object, and at most one member that holds
definitions, under either name. -/
inductive IsDefinition : Written → Prop where
  | object {members : List (String × Written)} {typeName : String} {body : List (String × Written)}
      (typed : typeMembers members = [(typeName, .object body)])
      (nestedOnce : (nestedMembers members).length ≤ 1)
      (nested : ∀ member ∈ nestedMembers members, IsDefinitions member.2) :
      IsDefinition (.object members)

end

/-- The last annotation among a definition's members. -/
def lastMeta (members : List (String × Written)) : Option Json :=
  (members.filter (·.1 = "meta")).getLast?.map (·.2.json)

mutual

/-- The definitions are those of the object, in their order. -/
inductive Defines : Written → List (String × Definition) → Prop where
  | object {members : List (String × Written)} {definitions : List (String × Definition)}
      (each : DefinesEach members definitions) : Defines (.object members) definitions

/-- The definitions are those of the members, one by one. -/
inductive DefinesEach : List (String × Written) → List (String × Definition) → Prop where
  | nil : DefinesEach [] []
  | cons {name : String} {tree : Written} {definition : Definition}
      {members : List (String × Written)} {definitions : List (String × Definition)}
      (first : DefinesOne tree definition) (rest : DefinesEach members definitions) :
      DefinesEach ((name, tree) :: members) ((name, definition) :: definitions)

/-- The definition has the type, the body, the definitions and the last annotation of the object. -/
inductive DefinesOne : Written → Definition → Prop where
  | plain {members : List (String × Written)} {typeName : String} {body : List (String × Written)}
      (typed : typeMembers members = [(typeName, .object body)])
      (unnested : nestedMembers members = []) :
      DefinesOne (.object members)
        { typeName, body := Entries.ofList (Written.jsonMembers body), nested := none,
          annotation := lastMeta members }
  | nesting {members : List (String × Written)} {typeName : String} {body : List (String × Written)}
      {name : String} {tree : Written} {definitions : List (String × Definition)}
      (typed : typeMembers members = [(typeName, .object body)])
      (nested : nestedMembers members = [(name, tree)]) (inner : Defines tree definitions) :
      DefinesOne (.object members)
        { typeName, body := Entries.ofList (Written.jsonMembers body), nested := some definitions,
          annotation := lastMeta members }

end

/-! ## Lists of members -/

theorem nestedMembers_cons_of_mem {name : String} (tree : Written)
    (members : List (String × Written)) (is : name ∈ nestedNames) :
    nestedMembers ((name, tree) :: members) = (name, tree) :: nestedMembers members :=
  List.filter_cons_of_pos (by simpa using is)

theorem nestedMembers_cons_of_not_mem {name : String} (tree : Written)
    (members : List (String × Written)) (is : name ∉ nestedNames) :
    nestedMembers ((name, tree) :: members) = nestedMembers members :=
  List.filter_cons_of_neg (by simpa using is)

theorem typeMembers_cons_of_mem {name : String} (tree : Written)
    (members : List (String × Written)) (is : name ∈ reservedNames) :
    typeMembers ((name, tree) :: members) = typeMembers members :=
  List.filter_cons_of_neg (by simpa using is)

theorem typeMembers_cons_of_not_mem {name : String} (tree : Written)
    (members : List (String × Written)) (is : name ∉ reservedNames) :
    typeMembers ((name, tree) :: members) = (name, tree) :: typeMembers members :=
  List.filter_cons_of_pos (by simpa using is)

theorem lastMeta_cons_of_ne {name : String} (tree : Written)
    (members : List (String × Written)) (other : name ≠ "meta") :
    lastMeta ((name, tree) :: members) = lastMeta members := by
  rw [lastMeta, List.filter_cons_of_neg (by simpa using other), lastMeta]

theorem lastMeta_cons_meta (tree : Written) (members : List (String × Written)) :
    lastMeta (("meta", tree) :: members) = (lastMeta members).or (some tree.json) := by
  rw [lastMeta, List.filter_cons_of_pos (by simp), List.getLast?_cons, lastMeta]
  cases (members.filter (·.1 = "meta")).getLast? with
  | none => rfl
  | some last => rfl

/-! ## Reading the members one by one -/

variable {depth : Nat} {name : String} {tree : Written} {members : List (String × Written)}

/-- A definition is read of each member, under the member's name. -/
def ReadAs (depth : Nat) (member : String × Written) (named : String × Definition) : Prop :=
  named.1 = member.1 ∧ readDefinition depth member.2.raw = .ok named.2

theorem readNamed_cons (before : List (String × Definition)) :
    readNamed depth before (Written.rawMembers ((name, tree) :: members)) .closed = (do
      let definition ← readDefinition depth tree.raw
      if name ∈ before.map (·.1) then throw (.repeatedName name)
      readNamed depth (before ++ [(name, definition)]) (Written.rawMembers members) .closed) := by
  rw [Written.rawMembers, readNamed]
  rfl

/-- A first name is new and then counts as one from before. -/
theorem nodup_cons_beside {first : String} {names before : List String} :
    (first :: names).Nodup ∧ (∀ name ∈ first :: names, name ∉ before) ↔
      first ∉ before ∧ names.Nodup ∧ ∀ name ∈ names, name ∉ before ++ [first] := by
  grind

/-- Named definitions are read if each is and no name repeats, also not one from before. -/
theorem readNamed_eq_ok {before definitions : List (String × Definition)} :
    readNamed depth before (Written.rawMembers members) .closed = .ok definitions ↔
      ((members.map (·.1)).Nodup ∧ ∀ name ∈ members.map (·.1), name ∉ before.map (·.1)) ∧
        ∃ new, definitions = before ++ new ∧ List.Forall₂ (ReadAs depth) members new := by
  -- Each name that is read is one of those from before for the rest.
  induction members generalizing before with
  | nil =>
      have : readNamed depth before (Written.rawMembers []) .closed = .ok before := by
        rw [Written.rawMembers, readNamed]
        rfl
      simp [this, eq_comm]
  | cons member members ih =>
      obtain ⟨name, tree⟩ := member
      rw [readNamed_cons, bind_eq_ok, List.map_cons, nodup_cons_beside]
      constructor
      · rintro ⟨definition, reads, h⟩
        obtain ⟨fresh, h⟩ := refuse_eq_ok.mp h
        obtain ⟨distinct, new, rfl, each⟩ := ih.mp h
        rw [List.map_append] at distinct
        exact ⟨⟨fresh, distinct⟩, (name, definition) :: new, List.append_assoc ..,
          .cons ⟨rfl, reads⟩ each⟩
      · rintro ⟨⟨fresh, distinct⟩, _, rfl, each⟩
        obtain ⟨⟨_, definition⟩, new, ⟨rfl, reads⟩, rest, rfl⟩ :=
          List.forall₂_cons_left_iff.mp each
        refine ⟨definition, reads, refuse_eq_ok.mpr ⟨fresh, ih.mpr ⟨?_, new, ?_, rest⟩⟩⟩
        · rwa [List.map_append]
        · rw [List.append_assoc, List.singleton_append]

/-- What members that hold definitions add to those that have been read. -/
inductive NestedRead (depth : Nat) :
    Option (List (String × Definition)) → List (String × Written) →
      Option (List (String × Definition)) → Prop where
  | nil {nested} : NestedRead depth nested [] nested
  | one {name : String} {tree : Written} {definitions : List (String × Definition)}
      (reads : readDefinitions depth tree.raw = .ok definitions) :
      NestedRead depth none [(name, tree)] (some definitions)

theorem nestedRead_nil_iff {before nested : Option (List (String × Definition))} :
    NestedRead depth before [] nested ↔ nested = before := by
  constructor
  · rintro ⟨⟩
    rfl
  · rintro rfl
    exact .nil

theorem nestedRead_cons_iff {before nested : Option (List (String × Definition))} :
    NestedRead depth before ((name, tree) :: members) nested ↔
      before = none ∧ ∃ definitions, readDefinitions depth tree.raw = .ok definitions ∧
        NestedRead depth (some definitions) members nested := by
  constructor
  · rintro ⟨⟩
    exact ⟨rfl, _, ‹_›, .nil⟩
  · rintro ⟨rfl, definitions, reads, ⟨⟩⟩
    exact .one reads

theorem readParts_cons_nested (is : name ∈ nestedNames) (parts : Definition.Parts) :
    readParts depth parts (Written.rawMembers ((name, tree) :: members)) .closed = (do
      if parts.nested.isSome then throw .nestedTwice
      let nested ← readDefinitions depth tree.raw
      readParts depth { parts with nested := some nested } (Written.rawMembers members)
        .closed) := by
  have is : name = "aggs" ∨ name = "aggregations" := by simpa [nestedNames] using is
  rw [Written.rawMembers, readParts]
  exact if_pos is

/-- What a member adds that holds no definitions. -/
def Definition.Parts.add (parts : Parts) (name : String) (value : Json) : Parts :=
  if name = "meta" then { parts with annotation := some value }
  else { parts with types := parts.types ++ [(name, value)] }

theorem readParts_cons_value (is : name ∉ nestedNames)
    (value : Raw.value depth tree.raw = .ok tree.json) (parts : Definition.Parts) :
    readParts depth parts (Written.rawMembers ((name, tree) :: members)) .closed =
      readParts depth (parts.add name tree.json) (Written.rawMembers members) .closed := by
  have is : ¬ (name = "aggs" ∨ name = "aggregations") := by simpa [nestedNames] using is
  rw [Written.rawMembers, readParts, Definition.Parts.add]
  refine (if_neg is).trans ?_
  rw [value]
  exact (apply_ite (fun parts => readParts depth parts (Written.rawMembers members) .closed) ..).symm

/-- The parts once all members are read, given the definitions they hold. -/
def Definition.Parts.after (parts : Parts) (members : List (String × Written))
    (nested : Option (List (String × Definition))) : Parts where
  types := parts.types ++ (typeMembers members).map fun member => (member.1, member.2.json)
  nested
  annotation := (lastMeta members).or parts.annotation

theorem Definition.Parts.after_nil (parts : Parts) : parts.after [] parts.nested = parts := by
  rw [after, typeMembers, List.filter_nil, List.map_nil, List.append_nil]
  rfl

theorem Definition.Parts.after_cons_nested (parts : Parts) (is : name ∈ nestedNames)
    (inner nested : Option (List (String × Definition))) :
    parts.after ((name, tree) :: members) nested =
      { parts with nested := inner }.after members nested := by
  have reserved : name ∈ reservedNames := List.mem_append_left _ is
  have other : name ≠ "meta" := by
    rintro rfl
    exact absurd is (by decide)
  rw [after, after, typeMembers_cons_of_mem _ _ reserved, lastMeta_cons_of_ne _ _ other]

theorem Definition.Parts.after_cons_value (parts : Parts) (is : name ∉ nestedNames)
    (nested : Option (List (String × Definition))) :
    parts.after ((name, tree) :: members) nested =
      (parts.add name tree.json).after members nested := by
  by_cases annotation : name = "meta"
  · subst annotation
    rw [add, if_pos rfl, after, after, typeMembers_cons_of_mem _ _ (by decide),
      lastMeta_cons_meta, Option.or_assoc, Option.some_or]
  · have free : name ∉ reservedNames := by simp [reservedNames, is, annotation]
    rw [add, if_neg annotation, after, after, typeMembers_cons_of_not_mem _ _ free,
      lastMeta_cons_of_ne _ _ annotation, List.map_cons, List.append_assoc,
      List.singleton_append]

/-- A definition's members are read if those that hold definitions are, and what is then there
makes a definition. -/
theorem readParts_eq_ok {parts : Definition.Parts} {definition : Definition}
    (values : ∀ member ∈ members, Raw.value depth member.2.raw = .ok member.2.json) :
    readParts depth parts (Written.rawMembers members) .closed = .ok definition ↔
      ∃ nested, NestedRead depth parts.nested (nestedMembers members) nested ∧
        (parts.after members nested).definition = .ok definition := by
  -- A second member that holds definitions is refused because the parts already hold some.
  induction members generalizing parts with
  | nil =>
      have : readParts depth parts (Written.rawMembers []) .closed = parts.definition := by
        rw [Written.rawMembers, readParts]
        rfl
      simp only [this, nestedMembers, List.filter_nil, nestedRead_nil_iff, exists_eq_left,
        parts.after_nil]
  | cons member members ih =>
      obtain ⟨name, tree⟩ := member
      obtain ⟨value, values⟩ := List.forall_mem_cons.mp values
      by_cases is : name ∈ nestedNames
      · rw [readParts_cons_nested is, refuse_eq_ok, nestedMembers_cons_of_mem _ _ is,
          Bool.not_eq_true, Option.isSome_eq_false_iff, Option.isNone_iff_eq_none]
        simp only [bind_eq_ok, ih values, nestedRead_cons_iff]
        constructor
        · rintro ⟨first, definitions, reads, nested, rest, h⟩
          refine ⟨nested, ⟨first, definitions, reads, rest⟩, ?_⟩
          rwa [parts.after_cons_nested is (some definitions)]
        · rintro ⟨nested, ⟨first, definitions, reads, rest⟩, h⟩
          refine ⟨first, definitions, reads, nested, rest, ?_⟩
          rwa [← parts.after_cons_nested is]
      · have same : (parts.add name tree.json).nested = parts.nested := by
          rw [Definition.Parts.add]
          split <;> rfl
        simp only [readParts_cons_value is value, ih values, same,
          nestedMembers_cons_of_not_mem _ _ is, parts.after_cons_value is]

theorem Definition.Parts.definition_eq_ok {parts : Parts} {definition : Definition} :
    parts.definition = .ok definition ↔
      ∃ typeName body, parts.types = [(typeName, .object body)] ∧
        definition = ⟨typeName, body, parts.nested, parts.annotation⟩ := by
  constructor
  · intro h
    rw [Parts.definition] at h
    split at h
    · cases h
    · next typeName body is =>
      cases h
      exact ⟨typeName, body, is, rfl⟩
    · cases h
    · cases h
  · rintro ⟨typeName, body, is, rfl⟩
    rw [Parts.definition, is]

/-! ## Reading objects -/

theorem refuse_ne_ok {α : Type} {expected : Expected} {raw : Raw} {x : α} :
    refuse expected raw ≠ .ok x := by
  intro h
  obtain ⟨_, _, h⟩ := bind_eq_ok.mp h
  cases h

theorem readDefinitions_ne_ok (other : ∀ members, tree ≠ .object members)
    {definitions : List (String × Definition)} :
    readDefinitions depth tree.raw ≠ .ok definitions := by
  cases tree with
  | object members => exact absurd rfl (other members)
  | null | bool | number | string | array => exact refuse_ne_ok

theorem readDefinition_ne_ok (other : ∀ members, tree ≠ .object members)
    {definition : Definition} : readDefinition depth tree.raw ≠ .ok definition := by
  cases tree with
  | object members => exact absurd rfl (other members)
  | null | bool | number | string | array => exact refuse_ne_ok

theorem enter_eq_ok (fits : depth + (Written.object members).nesting ≤ Json.maxDepth) :
    enter depth = .ok () := by
  rw [Written.nesting] at fits
  rw [enter, if_neg (by omega)]

theorem readDefinitions_object (fits : depth + (Written.object members).nesting ≤ Json.maxDepth)
    {definitions : List (String × Definition)} :
    readDefinitions depth (Written.object members).raw = .ok definitions ↔
      (members.map (·.1)).Nodup ∧ List.Forall₂ (ReadAs (depth + 1)) members definitions := by
  rw [Written.raw, readDefinitions, enter_eq_ok fits]
  refine readNamed_eq_ok.trans ?_
  simp

theorem readDefinition_object (fits : depth + (Written.object members).nesting ≤ Json.maxDepth)
    {definition : Definition} :
    readDefinition depth (Written.object members).raw = .ok definition ↔
      ∃ typeName body nested, typeMembers members = [(typeName, .object body)] ∧
        NestedRead (depth + 1) none (nestedMembers members) nested ∧
        definition = { typeName, body := Entries.ofList (Written.jsonMembers body), nested,
                       annotation := lastMeta members } := by
  have values : ∀ member ∈ members,
      Raw.value (depth + 1) member.2.raw = .ok member.2.json := fun member mem =>
    member.2.value_raw (Written.fits_of_mem mem fits)
  rw [Written.raw, readDefinition, enter_eq_ok fits]
  refine (readParts_eq_ok values).trans ?_
  have annotation : (lastMeta members).or none = lastMeta members := Option.or_none
  constructor
  · rintro ⟨nested, reads, h⟩
    obtain ⟨typeName, body, types, rfl⟩ := Definition.Parts.definition_eq_ok.mp h
    obtain ⟨⟨name, tree⟩, typed, is⟩ := List.map_eq_singleton_iff.mp types
    obtain ⟨rfl, value⟩ := Prod.mk.inj is
    obtain ⟨inner, rfl, rfl⟩ := Written.json_eq_object_iff.mp value
    exact ⟨name, inner, nested, typed, reads, by rw [← annotation]; rfl⟩
  · rintro ⟨typeName, body, nested, typed, reads, rfl⟩
    refine ⟨nested, reads, Definition.Parts.definition_eq_ok.mpr
      ⟨typeName, Entries.ofList (Written.jsonMembers body), ?_, ?_⟩⟩
    · exact List.map_eq_singleton_iff.mpr ⟨_, typed, rfl⟩
    · rw [← annotation]
      rfl

/-! ## The grammar -/

/-- What is read of a tree keeps to the grammar and is what the tree defines. -/
structure Kept (tree : Written) : Prop where
  definitions {depth : Nat} {definitions : List (String × Definition)}
    (fits : depth + tree.nesting ≤ Json.maxDepth)
    (reads : readDefinitions depth tree.raw = .ok definitions) :
    IsDefinitions tree ∧ Defines tree definitions
  definition {depth : Nat} {definition : Definition}
    (fits : depth + tree.nesting ≤ Json.maxDepth)
    (reads : readDefinition depth tree.raw = .ok definition) :
    IsDefinition tree ∧ DefinesOne tree definition

theorem each_kept {definitions : List (String × Definition)}
    (kept : ∀ member ∈ members, Kept member.2)
    (fits : ∀ member ∈ members, depth + member.2.nesting ≤ Json.maxDepth)
    (reads : List.Forall₂ (ReadAs depth) members definitions) :
    (∀ member ∈ members, IsDefinition member.2) ∧ DefinesEach members definitions := by
  induction reads with
  | nil => exact ⟨nofun, .nil⟩
  | @cons member named members definitions first _ ih =>
      obtain ⟨name, tree⟩ := member
      obtain ⟨name', definition⟩ := named
      obtain ⟨rfl, first⟩ := first
      obtain ⟨head, tail⟩ := List.forall_mem_cons.mp kept
      obtain ⟨headFits, tailFits⟩ := List.forall_mem_cons.mp fits
      obtain ⟨is, defines⟩ := head.definition headFits first
      obtain ⟨are, definesEach⟩ := ih tail tailFits
      exact ⟨List.forall_mem_cons.mpr ⟨is, are⟩, .cons defines definesEach⟩

theorem kept (tree : Written) : Kept tree := by
  induction tree using Written.induction_members with
  | other tree other =>
      exact ⟨fun _ reads => absurd reads (readDefinitions_ne_ok other),
        fun _ reads => absurd reads (readDefinition_ne_ok other)⟩
  | object members ih =>
      refine ⟨fun fits reads => ?_, fun fits reads => ?_⟩
      · obtain ⟨distinct, reads⟩ := (readDefinitions_object fits).mp reads
        obtain ⟨are, defines⟩ := each_kept ih (fun _ mem => Written.fits_of_mem mem fits) reads
        exact ⟨.object distinct are, .object defines⟩
      · obtain ⟨typeName, body, nested, typed, inside, rfl⟩ := (readDefinition_object fits).mp reads
        generalize is : nestedMembers members = inner at inside
        cases inside with
        | nil => exact ⟨.object typed (by rw [is]; decide) (by rw [is]; nofun), .plain typed is⟩
        | @one name tree definitions inside =>
            have mem : (name, tree) ∈ members :=
              List.mem_of_mem_filter (is ▸ List.mem_singleton_self _ : _ ∈ nestedMembers members)
            obtain ⟨are, defines⟩ := (ih _ mem).definitions (Written.fits_of_mem mem fits) inside
            refine ⟨.object typed ?_ ?_, .nesting typed is defines⟩
            · rw [is, List.length_singleton]
            · rwa [is, List.forall_mem_singleton]

theorem exists_read (tree : Written) {depth : Nat} (fits : depth + tree.nesting ≤ Json.maxDepth) :
    (IsDefinitions tree → ∃ definitions, readDefinitions depth tree.raw = .ok definitions) ∧
      (IsDefinition tree → ∃ definition, readDefinition depth tree.raw = .ok definition) := by
  induction tree using Written.induction_members generalizing depth with
  | other tree other =>
      constructor
      · rintro ⟨⟩
        exact absurd rfl (other _)
      · rintro ⟨⟩
        exact absurd rfl (other _)
  | object members ih =>
      constructor
      · rintro ⟨distinct, each⟩
        have readable : ∀ member ∈ members, ∃ named, ReadAs (depth + 1) member named := by
          intro member mem
          obtain ⟨definition, reads⟩ :=
            (ih member mem (Written.fits_of_mem mem fits)).2 (each member mem)
          exact ⟨(member.1, definition), rfl, reads⟩
        obtain ⟨definitions, reads⟩ := exists_forall₂ readable
        exact ⟨definitions, (readDefinitions_object fits).mpr ⟨distinct, reads⟩⟩
      · rintro ⟨typed, nestedOnce, nested⟩
        have readable : ∃ inner, NestedRead (depth + 1) none (nestedMembers members) inner := by
          match is : nestedMembers members with
          | [] => exact ⟨none, .nil⟩
          | [(name, tree)] =>
              have mem : (name, tree) ∈ nestedMembers members := is ▸ List.mem_singleton_self _
              have within := List.mem_of_mem_filter mem
              obtain ⟨definitions, reads⟩ :=
                (ih _ within (Written.fits_of_mem within fits)).1 (nested _ mem)
              exact ⟨some definitions, .one reads⟩
          | _ :: _ :: _ => simp [is] at nestedOnce
        obtain ⟨inner, reads⟩ := readable
        exact ⟨_, (readDefinition_object fits).mpr ⟨_, _, inner, typed, reads, rfl⟩⟩

/-- What is read within `depth` containers is what the grammar has, and is read in full: at every
depth the names in the order of the text, and of each the type, the body, the definitions that it
holds and its last annotation. -/
structure FollowsGrammar (depth : Nat) (tree : Written) : Prop where
  definitions_iff :
    (∃ definitions, readDefinitions depth tree.raw = .ok definitions) ↔ IsDefinitions tree
  defines :
    ∀ definitions, readDefinitions depth tree.raw = .ok definitions → Defines tree definitions
  definition_iff :
    (∃ definition, readDefinition depth tree.raw = .ok definition) ↔ IsDefinition tree
  definesOne :
    ∀ definition, readDefinition depth tree.raw = .ok definition → DefinesOne tree definition

/-- Definitions are read of exactly the trees of the grammar, and are then those of the tree. -/
theorem follows_grammar (tree : Written) (depth : Nat)
    (fits : depth + tree.nesting ≤ Json.maxDepth) : FollowsGrammar depth tree where
  definitions_iff :=
    ⟨fun ⟨_, reads⟩ => ((kept tree).definitions fits reads).1, (exists_read tree fits).1⟩
  defines _ reads := ((kept tree).definitions fits reads).2
  definition_iff :=
    ⟨fun ⟨_, reads⟩ => ((kept tree).definition fits reads).1, (exists_read tree fits).2⟩
  definesOne _ reads := ((kept tree).definition fits reads).2

/-- Bytes by host, with two annotations around what is held. -/
def bytesByHost : Written :=
  .object [("hosts", .object
    [("meta", .null),
     ("terms", .object [("field", .string "host")]),
     ("aggs", .object [("bytes", .object [("sum", .object [("field", .string "bytes")])])]),
     ("meta", .bool true)])]

theorem follows_grammar_bytesByHost :
    1 + bytesByHost.nesting ≤ Json.maxDepth ∧ FollowsGrammar 1 bytesByHost ∧
      readDefinitions 1 bytesByHost.raw = .ok
        [("hosts",
          { typeName := "terms"
            body := [("field", .string "host")]
            nested := some [("bytes",
              { typeName := "sum", body := [("field", .string "bytes")], nested := none,
                annotation := none })]
            annotation := some (.bool true) })] :=
  ⟨by decide, follows_grammar bytesByHost 1 (by decide), by cbv⟩

end Rollup.Search
