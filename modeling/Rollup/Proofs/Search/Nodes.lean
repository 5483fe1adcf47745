import Rollup.Proofs.Aggregation.Descent
import Rollup.Proofs.Aggregation.Faults
import Rollup.Proofs.Search.Grammar
import Rollup.Search.Forest

/-! # The nodes of definitions

Definitions become nodes of the same shape, if each of them can become one. Reading them has made
their names distinct, and a node gets the kind of the method that it names, so the forest is never
refused for a name or a kind.
-/

namespace Rollup

namespace Forest

/-- At every level, names are distinct and each node has the kind of the method that it names. -/
inductive Identified : List Node → Prop where
  | intro {nodes : List Node} (names : (nodes.map (·.name)).Nodup)
      (kinds : ∀ node ∈ nodes, ∃ method, Method.ofName? node.typeName = some method ∧
        node.kind = method.kind)
      (below : ∀ node ∈ nodes, Identified node.children) : Identified nodes

theorem Identified.levelAt {forest nodes : List Node} {ancestors : List String}
    (identified : Identified forest) (level : LevelAt forest ancestors nodes) :
    Identified nodes := by
  induction level with
  | top => exact identified
  | children _ member ih =>
      obtain ⟨-, -, below⟩ := ih
      exact below _ member

theorem validateNode_raisesContent {node : Node} {method : Method}
    (named : Method.ofName? node.typeName = some method) (kind : node.kind = method.kind) :
    RaisesOnly OfContent node.validate := by
  have found : node.method = .ok method := Method.find_eq_ok.mpr named
  unfold Node.validate
  rw [found]
  show RaisesOnly OfContent (if method.kind ≠ node.kind then _ else _)
  rw [if_neg (not_not.mpr kind.symm)]
  exact validateContent_raises node method

theorem validateNodes_raisesContent {seen : List String} {nodes : List Node}
    (names : (nodes.map (·.name)).Nodup) (unseen : ∀ node ∈ nodes, node.name ∉ seen)
    (each : ∀ node ∈ nodes, RaisesOnly OfContent node.validate) :
    RaisesOnly OfContent (validateNodes seen nodes) := by
  induction nodes generalizing seen with
  | nil => exact .ok
  | cons node nodes ih =>
      rw [List.map_cons, List.nodup_cons] at names
      rw [List.forall_mem_cons] at unseen each
      rw [validateNodes, if_neg unseen.1]
      refine .bind each.1 fun _ => ih names.2 (fun other later => ?_) each.2
      rw [List.mem_cons, not_or]
      refine ⟨fun same => names.1 ?_, unseen.2 other later⟩
      rw [← same]
      exact List.mem_map_of_mem later

theorem validateLevel_raisesContent {nodes : List Node} (identified : Identified nodes)
    (ancestors : List String) : RaisesOnly OfContent (validateLevel ancestors nodes) := by
  obtain ⟨names, kinds, -⟩ := identified
  have each : ∀ node ∈ nodes, RaisesOnly OfContent node.validate := by
    intro node member
    obtain ⟨method, named, kind⟩ := kinds node member
    exact validateNode_raisesContent named kind
  exact .bind (validateNodes_raisesContent names (fun _ _ => List.not_mem_nil) each) fun _ =>
    validatePipelines_raises nodes ancestors [] _ nodes

mutual

theorem validateBelow_raisesContent (ancestors : List String) : ∀ node : Node,
    Identified node.children → RaisesOnly OfContent (validateBelow ancestors node)
  | ⟨name, typeName, kind, field, params, children⟩, identified => by
      rw [validateBelow]
      refine .bind (validateLevel_raisesContent identified _) fun _ => ?_
      obtain ⟨-, -, below⟩ := identified
      exact validateAllBelow_raisesContent _ children below

theorem validateAllBelow_raisesContent (ancestors : List String) : ∀ nodes : List Node,
    (∀ node ∈ nodes, Identified node.children) →
      RaisesOnly OfContent (validateAllBelow ancestors nodes)
  | [], _ => by
      rw [validateAllBelow]
      exact .ok
  | node :: nodes, below => by
      rw [List.forall_mem_cons] at below
      rw [validateAllBelow]
      exact .bind (validateBelow_raisesContent ancestors node below.1) fun _ =>
        validateAllBelow_raisesContent ancestors nodes below.2

end

/-- Where names are distinct and kinds are those of the methods, a forest is refused for nothing but
what its nodes hold or read. -/
theorem Identified.validate_raises {nodes : List Node} (identified : Identified nodes) :
    RaisesOnly OfContent (validate nodes) := by
  refine .bind (validateLevel_raisesContent identified []) fun _ => ?_
  obtain ⟨-, -, below⟩ := identified
  exact validateAllBelow_raisesContent [] nodes below

end Forest

namespace Search

open Json (Raw Ending)

/-! ## Definitions at every depth -/

/-- A definition among others, or among those that one of them holds, at any depth. -/
inductive Within (definitions : List (String × Definition)) : Definition → Prop where
  | top {name : String} {definition : Definition} :
      (name, definition) ∈ definitions → Within definitions definition
  | nested {outer definition : Definition} {inner : List (String × Definition)} {name : String} :
      Within definitions outer → outer.nested = some inner → (name, definition) ∈ inner →
      Within definitions definition

/-- A definition that can become a node, whatever it holds: its type is known, its field is absent or
a string, and it has no script. -/
structure Definition.Supported (definition : Definition) : Prop where
  known : ∃ method, Method.ofName? definition.typeName = some method
  field : ∀ value, definition.body.lookup "field" = some value → ∃ field, value = .string field
  unscripted : definition.body.lookup "script" = none

/-- The node has the definition's name and type, the kind of that type, the body's field, what else
the body holds as its parameters, and a copy of each definition that is held, in their order. -/
inductive CopyOf : String × Definition → Node → Prop where
  | intro {name : String} {definition : Definition} {node : Node} {method : Method}
      (named : node.name = name) (typed : node.typeName = definition.typeName)
      (known : Method.ofName? definition.typeName = some method) (kind : node.kind = method.kind)
      (field : definition.body.lookup "field" = node.field.map .string)
      (params : node.params.Perm (definition.body.filter (·.1 ≠ "field")))
      (children : List.Forall₂ CopyOf (definition.nested.getD []) node.children) :
      CopyOf (name, definition) node

/-- At every level, names are distinct. -/
inductive WellNamed : List (String × Definition) → Prop where
  | intro {definitions : List (String × Definition)} (names : (definitions.map (·.1)).Nodup)
      (below : ∀ member ∈ definitions, ∀ inner, member.2.nested = some inner → WellNamed inner) :
      WellNamed definitions

theorem within_iff {definitions : List (String × Definition)} {definition : Definition} :
    Within definitions definition ↔
      ∃ member ∈ definitions, definition = member.2 ∨
        ∃ inner, member.2.nested = some inner ∧ Within inner definition := by
  constructor
  · intro within
    induction within with
    | top member => exact ⟨_, member, .inl rfl⟩
    | nested _ holds member ih =>
        obtain ⟨first, among, rfl | ⟨inner, held, within⟩⟩ := ih
        · exact ⟨first, among, .inr ⟨_, holds, .top member⟩⟩
        · exact ⟨first, among, .inr ⟨inner, held, .nested within holds member⟩⟩
  · rintro ⟨⟨name, first⟩, among, rfl | ⟨inner, held, within⟩⟩
    · exact .top among
    · induction within with
      | top member => exact .nested (.top among) held member
      | nested _ holds member ih => exact .nested ih holds member

theorem Definition.sizeOf_lt_of_nested {definition : Definition}
    {inner : List (String × Definition)} (holds : definition.nested = some inner)
    {member : String × Definition} (mem : member ∈ inner) :
    sizeOf member.2 < sizeOf definition := by
  obtain ⟨typeName, body, nested, annotation⟩ := definition
  obtain ⟨name, within⟩ := member
  subst holds
  have := List.sizeOf_lt_of_mem mem
  simp only [Definition.mk.sizeOf_spec, Option.some.sizeOf_spec, Prod.mk.sizeOf_spec] at *
  omega

/-- What a definition has from those that it holds is had by every definition. -/
theorem Definition.induction_nested {P : Definition → Prop}
    (step : ∀ definition, (∀ inner, definition.nested = some inner → ∀ member ∈ inner, P member.2) →
      P definition) (definition : Definition) : P definition :=
  step definition fun _ holds member mem =>
    have := sizeOf_lt_of_nested holds mem
    induction_nested step member.2
termination_by sizeOf definition

/-! ## Names that have been read -/

mutual

theorem readDefinitions_wellNamed (depth : Nat) : ∀ raw definitions,
    readDefinitions depth raw = .ok definitions → WellNamed definitions
  | .object members ending, definitions, reads => by
      rw [readDefinitions, check_eq_ok] at reads
      exact readNamed_wellNamed _ [] members ending definitions (.intro .nil nofun) reads.2
  | .null, _, reads | .bool _, _, reads | .number _, _, reads | .string _, _, reads
  | .array _ _, _, reads | .broken _, _, reads => by
      rw [readDefinitions] at reads
      · exact absurd reads refuse_ne_ok
      · nofun

theorem readNamed_wellNamed (depth : Nat) (before : List (String × Definition)) :
    ∀ members ending definitions, WellNamed before →
      readNamed depth before members ending = .ok definitions → WellNamed definitions
  | [], ending, definitions, wellNamed, reads => by
      rw [readNamed, check_eq_ok] at reads
      cases reads.2
      exact wellNamed
  | (name, raw) :: members, ending, definitions, wellNamed, reads => by
      rw [readNamed, bind_eq_ok] at reads
      obtain ⟨name, -, reads⟩ := reads
      obtain ⟨definition, first, reads⟩ := bind_eq_ok.mp reads
      obtain ⟨new, rest⟩ := refuse_eq_ok.mp reads
      refine readNamed_wellNamed depth _ members ending definitions ?_ rest
      obtain ⟨names, below⟩ := wellNamed
      refine .intro ?_ ?_
      · rw [List.map_append, List.map_singleton]
        exact List.concat_eq_append ▸ names.concat new
      · intro member mem inner holds
        rcases List.mem_append.mp mem with old | added
        · exact below member old inner holds
        · obtain rfl := List.mem_singleton.mp added
          exact readDefinition_wellNamed depth raw definition first inner holds

theorem readDefinition_wellNamed (depth : Nat) : ∀ raw definition,
    readDefinition depth raw = .ok definition →
      ∀ inner, definition.nested = some inner → WellNamed inner
  | .object members ending, definition, reads => by
      rw [readDefinition, check_eq_ok] at reads
      exact readParts_wellNamed _ {} members ending definition nofun reads.2
  | .null, _, reads | .bool _, _, reads | .number _, _, reads | .string _, _, reads
  | .array _ _, _, reads | .broken _, _, reads => by
      rw [readDefinition] at reads
      · exact absurd reads refuse_ne_ok
      · nofun

theorem readParts_wellNamed (depth : Nat) (parts : Definition.Parts) :
    ∀ members ending definition, (∀ inner, parts.nested = some inner → WellNamed inner) →
      readParts depth parts members ending = .ok definition →
        ∀ inner, definition.nested = some inner → WellNamed inner
  | [], ending, definition, wellNamed, reads => by
      rw [readParts, check_eq_ok] at reads
      obtain ⟨typeName, body, -, rfl⟩ := Definition.Parts.definition_eq_ok.mp reads.2
      exact wellNamed
  | (name, raw) :: members, ending, definition, wellNamed, reads => by
      rw [readParts, bind_eq_ok] at reads
      obtain ⟨name, -, reads⟩ := reads
      dsimp only at reads
      split at reads
      · -- A member that holds definitions.
        obtain ⟨-, reads⟩ := refuse_eq_ok.mp reads
        obtain ⟨nested, first, rest⟩ := bind_eq_ok.mp reads
        refine readParts_wellNamed depth _ members ending definition ?_ rest
        rintro inner ⟨⟩
        exact readDefinitions_wellNamed depth raw nested first
      · -- An annotation or a type.
        obtain ⟨value, -, reads⟩ := bind_eq_ok.mp reads
        split at reads
        · exact readParts_wellNamed depth { parts with annotation := some value } members ending
            definition wellNamed reads
        · exact readParts_wellNamed depth { parts with types := parts.types ++ [(name, value)] }
            members ending definition wellNamed reads

end

/-! ## From a definition to its node -/

theorem fieldOf_eq_ok {name : String} {body : Entries Json} {field : Option String} :
    fieldOf name body = .ok field ↔ body.lookup "field" = field.map .string := by
  unfold fieldOf
  cases body.lookup "field" with
  | none => cases field <;> simp
  | some value => cases value <;> cases field <;> simp

theorem has_erase_script {body : Entries Json} :
    Entries.has (Entries.erase body "field") "script" ↔ body.lookup "script" ≠ none := by
  have same : (Entries.erase body "field").lookup "script" = body.lookup "script" := by
    induction body with
    | nil => rfl
    | cons entry rest ih =>
        obtain ⟨name, value⟩ := entry
        by_cases is : name = "field"
        · subst is
          exact ih
        · rw [Entries.erase, List.filter_cons_of_pos (by simpa using is), lookup_cons_ite,
            lookup_cons_ite]
          exact congrArg _ ih
  rw [Entries.has, same, Option.isSome_iff_ne_none]

theorem create_eq_ok {name typeName : String} {field : Option String} {params : Entries Json}
    {children : List Node} {node : Node} :
    Node.create name typeName field params children = .ok node ↔
      ∃ method, Method.ofName? typeName = some method ∧
        node = ⟨name, typeName, method.kind, field, params, children⟩ := by
  rw [Node.create, bind_eq_ok]
  refine exists_congr fun method => and_congr Method.find_eq_ok ⟨?_, ?_⟩
  · rintro ⟨⟩
    rfl
  · rintro rfl
    rfl

theorem nodeOf_eq_ok {name typeName : String} {body : Entries Json} {children : List Node}
    {node : Node} :
    nodeOf name typeName body children = .ok node ↔
      ∃ field method, body.lookup "field" = Option.map .string field ∧
        body.lookup "script" = none ∧ Method.ofName? typeName = some method ∧
        node = ⟨name, typeName, method.kind, field, Entries.erase body "field", children⟩ := by
  unfold nodeOf
  simp only [bind_eq_ok, refuse_eq_ok, fieldOf_eq_ok, has_erase_script, not_not]
  refine exists_congr fun field => ?_
  cases created : Node.create name typeName field (Entries.erase body "field") children with
  | error e =>
      have unknown : ¬ ∃ method, Method.ofName? typeName = some method := by
        rintro ⟨method, known⟩
        cases created.symm.trans (create_eq_ok.mpr ⟨method, known, rfl⟩)
      constructor
      · rintro ⟨-, -, ⟨⟩⟩
      · rintro ⟨method, -, -, known, -⟩
        exact absurd ⟨method, known⟩ unknown
  | ok made =>
      obtain ⟨method, known, rfl⟩ := create_eq_ok.mp created
      constructor
      · rintro ⟨named, unscripted, ⟨⟩⟩
        exact ⟨method, named, unscripted, known, rfl⟩
      · rintro ⟨other, named, unscripted, same, rfl⟩
        obtain rfl : method = other := Option.some.inj (known.symm.trans same)
        exact ⟨named, unscripted, rfl⟩

theorem nestedNodes_eq (nested : Option (List (String × Definition))) :
    nestedNodes nested = nodesOf (nested.getD []) := by
  cases nested with
  | none =>
      rw [nestedNodes]
      rfl
  | some definitions =>
      rw [nestedNodes]
      rfl

theorem node_eq_ok {name : String} {definition : Definition} {node : Node} :
    definition.node name = .ok node ↔
      ∃ children, nodesOf (definition.nested.getD []) = .ok children ∧
        nodeOf name definition.typeName definition.body children = .ok node := by
  obtain ⟨typeName, body, nested, annotation⟩ := definition
  rw [Definition.node, bind_eq_ok, nestedNodes_eq]

theorem nodesOf_eq_ok {definitions : List (String × Definition)} {nodes : List Node} :
    nodesOf definitions = .ok nodes ↔
      List.Forall₂ (fun member node => member.2.node member.1 = .ok node) definitions nodes := by
  have same : nodesOf definitions = definitions.mapM fun member => member.2.node member.1 := by
    induction definitions with
    | nil => rfl
    | cons member rest ih =>
        rw [nodesOf, List.mapM_cons, ih]
  rw [same, mapM_eq_ok]

/-! ## Copies -/

/-- A definition that becomes a node is copied. -/
theorem copyOf_of_node (definition : Definition) : ∀ name node,
    definition.node name = .ok node → CopyOf (name, definition) node := by
  -- The induction is on the definition: those that it holds become its node's children.
  induction definition using Definition.induction_nested with
  | step definition ih =>
      intro name node made
      obtain ⟨children, below, made⟩ := node_eq_ok.mp made
      obtain ⟨field, method, named, -, known, rfl⟩ := nodeOf_eq_ok.mp made
      refine .intro rfl rfl known rfl named (.refl _) ?_
      cases holds : definition.nested with
      | none =>
          rw [holds] at below
          cases below
          exact .nil
      | some inner =>
          rw [holds] at below
          exact forall₂_imp_of_mem (nodesOf_eq_ok.mp below) fun member mem node made =>
            ih inner holds member mem member.1 node made

theorem copies_of_nodesOf {definitions : List (String × Definition)} {nodes : List Node}
    (made : nodesOf definitions = .ok nodes) : List.Forall₂ CopyOf definitions nodes :=
  (nodesOf_eq_ok.mp made).imp fun member node made => copyOf_of_node member.2 member.1 node made

theorem identified_of_copies {definitions : List (String × Definition)}
    (wellNamed : WellNamed definitions) {nodes : List Node}
    (copies : List.Forall₂ CopyOf definitions nodes) : Forest.Identified nodes := by
  induction wellNamed generalizing nodes with
  | @intro definitions names below ih =>
      have same : nodes.map (·.name) = definitions.map (·.1) := by
        refine map_eq_of_related copies ?_
        rintro _ _ ⟨named, -⟩
        exact named
      refine .intro (same ▸ names) ?_ ?_
      · intro node mem
        obtain ⟨_, -, copy⟩ := exists_related copies mem
        obtain ⟨-, typed, known, kind, -⟩ := copy
        exact ⟨_, typed ▸ known, kind⟩
      · intro node mem
        obtain ⟨member, among, copy⟩ := exists_related copies mem
        obtain ⟨-, -, -, -, -, -, children⟩ := copy
        rename_i name definition _
        cases holds : definition.nested with
        | none =>
            rw [holds] at children
            generalize node.children = inside at children
            cases children
            exact .intro .nil nofun nofun
        | some inner =>
            rw [holds] at children
            exact ih (name, definition) among inner holds children

/-! ## Definitions that become nodes -/

theorem exists_nodeOf_iff {name : String} {definition : Definition} {children : List Node} :
    (∃ node, nodeOf name definition.typeName definition.body children = .ok node) ↔
      definition.Supported := by
  simp only [nodeOf_eq_ok]
  constructor
  · rintro ⟨node, field, method, named, unscripted, known, -⟩
    refine ⟨⟨method, known⟩, fun value found => ?_, unscripted⟩
    rw [named] at found
    obtain ⟨field, -, rfl⟩ := Option.map_eq_some_iff.mp found
    exact ⟨field, rfl⟩
  · rintro ⟨⟨method, known⟩, string, unscripted⟩
    have named : ∃ field, definition.body.lookup "field" = Option.map .string field := by
      cases found : definition.body.lookup "field" with
      | none => exact ⟨none, rfl⟩
      | some value =>
          obtain ⟨field, rfl⟩ := string value found
          exact ⟨some field, rfl⟩
    obtain ⟨field, named⟩ := named
    exact ⟨_, field, method, named, unscripted, known, rfl⟩

/-- A definition that can become a node, with all that it holds. -/
def Definition.SupportedBelow (definition : Definition) : Prop :=
  definition.Supported ∧
    ∀ inner, definition.nested = some inner → ∀ other, Within inner other → other.Supported

theorem supportedBelow_iff {definitions : List (String × Definition)} :
    (∀ member ∈ definitions, member.2.SupportedBelow) ↔
      ∀ definition, Within definitions definition → definition.Supported := by
  constructor
  · intro each definition within
    obtain ⟨member, among, rfl | ⟨inner, held, within⟩⟩ := within_iff.mp within
    · exact (each member among).1
    · exact (each member among).2 inner held definition within
  · intro each member among
    refine ⟨each member.2 (.top among), fun inner held other within => ?_⟩
    exact each other (within_iff.mpr ⟨member, among, .inr ⟨inner, held, within⟩⟩)

theorem exists_nodes_iff {definitions : List (String × Definition)}
    (each : ∀ member ∈ definitions, ∀ name,
      (∃ node, member.2.node name = .ok node) ↔ member.2.SupportedBelow) :
    (∃ nodes, nodesOf definitions = .ok nodes) ↔
      ∀ definition, Within definitions definition → definition.Supported := by
  rw [← supportedBelow_iff]
  constructor
  · rintro ⟨nodes, made⟩ member among
    obtain ⟨node, -, made⟩ := exists_related (nodesOf_eq_ok.mp made).flip among
    exact (each member among member.1).mp ⟨node, made⟩
  · intro supported
    have made : ∀ member ∈ definitions, ∃ node, member.2.node member.1 = .ok node :=
      fun member among => (each member among member.1).mpr (supported member among)
    obtain ⟨nodes, made⟩ := exists_forall₂ made
    exact ⟨nodes, nodesOf_eq_ok.mpr made⟩

theorem exists_node_iff (definition : Definition) : ∀ name,
    (∃ node, definition.node name = .ok node) ↔ definition.SupportedBelow := by
  -- What is held becomes nodes first, then the definition does with these as its children.
  induction definition using Definition.induction_nested with
  | step definition ih =>
      intro name
      have split : (∃ node, definition.node name = .ok node) ↔
          definition.Supported ∧ ∃ children, nodesOf (definition.nested.getD []) = .ok children := by
        simp only [node_eq_ok]
        constructor
        · rintro ⟨node, children, below, made⟩
          exact ⟨exists_nodeOf_iff.mp ⟨node, made⟩, children, below⟩
        · rintro ⟨supported, children, below⟩
          obtain ⟨node, made⟩ := exists_nodeOf_iff.mpr supported
          exact ⟨node, children, below, made⟩
      rw [split, Definition.SupportedBelow]
      refine and_congr_right fun _ => ?_
      cases holds : definition.nested with
      | none => exact iff_of_true ⟨[], rfl⟩ nofun
      | some inner =>
          refine (exists_nodes_iff (ih inner holds)).trans ⟨?_, ?_⟩
          · rintro each _ ⟨⟩
            exact each
          · intro each
            exact each inner rfl

/-- Definitions become nodes if each of them can, at any depth. The nodes are then copies, level by
level and in order, with names that are distinct among siblings, and are refused neither for a name
that is taken twice nor for a kind that is not that of the type. -/
structure Translates (definitions : List (String × Definition)) : Prop where
  succeeds_iff : (∃ nodes, nodesOf definitions = .ok nodes) ↔
    ∀ definition, Within definitions definition → definition.Supported
  copies : ∀ nodes, nodesOf definitions = .ok nodes → List.Forall₂ CopyOf definitions nodes
  siblings : ∀ nodes, nodesOf definitions = .ok nodes → ∀ ancestors level,
    Forest.LevelAt nodes ancestors level → (level.map (·.name)).Nodup
  identified : ∀ nodes, nodesOf definitions = .ok nodes → ∀ name fault,
    Forest.validate nodes = .error (.invalidAggregation name fault) →
      fault ≠ .duplicateName ∧ ∀ kind typeName, fault ≠ .kindMismatch kind typeName

/-- Definitions that are read of a request translate to nodes that copy them. -/
theorem translates_of_read {depth : Nat} {raw : Raw} {definitions : List (String × Definition)}
    (reads : readDefinitions depth raw = .ok definitions) : Translates definitions := by
  have wellNamed := readDefinitions_wellNamed depth raw definitions reads
  refine ⟨exists_nodes_iff fun member _ => exists_node_iff member.2, fun _ => copies_of_nodesOf,
    ?_, ?_⟩
  · intro nodes made ancestors level reached
    have identified := identified_of_copies wellNamed (copies_of_nodesOf made)
    obtain ⟨names, -, -⟩ := identified.levelAt reached
    exact names
  · intro nodes made name fault refused
    have identified := identified_of_copies wellNamed (copies_of_nodesOf made)
    have content : fault.isOfIdentity = false := identified.validate_raises _ refused
    constructor
    · rintro rfl
      cases content
    · rintro kind typeName rfl
      cases content

/-- The definitions of bytes by host. -/
def bytesByHostDefinitions : List (String × Definition) :=
  [("hosts",
    { typeName := "terms"
      body := [("field", .string "host")]
      nested := some [("bytes",
        { typeName := "sum", body := [("field", .string "bytes")], nested := none,
          annotation := none })]
      annotation := some (.bool true) })]

theorem translates_bytesByHost :
    readDefinitions 1 bytesByHost.raw = .ok bytesByHostDefinitions ∧
      Translates bytesByHostDefinitions ∧
      nodesOf bytesByHostDefinitions =
        .ok [⟨"hosts", "terms", .bucketing, some "host", [],
          [⟨"bytes", "sum", .metric, some "bytes", [], []⟩]⟩] := by
  have reads : readDefinitions 1 bytesByHost.raw = .ok bytesByHostDefinitions := by cbv
  exact ⟨reads, translates_of_read reads, by cbv⟩

end Search

end Rollup
