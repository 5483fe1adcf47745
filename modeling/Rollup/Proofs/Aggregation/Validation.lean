import Rollup.Aggregation.Validation
import Rollup.Proofs.Success

/-! # What validation establishes

A forest is accepted exactly if each level of it is: the names above a level only decide how a
refusal is worded. Of a level that is accepted, names are distinct, and every node asks for a method
of its kind.
-/

namespace Rollup

theorem Method.find_eq_ok {name : String} {field : Option String} {method : Method} :
    find name field = .ok method ↔ ofName? name = some method := by
  unfold find
  cases ofName? name <;> cases field <;> simp

namespace Node

/-- A node that is sound by itself. -/
structure Checked (node : Node) (method : Method) : Prop where
  named : Method.ofName? node.typeName = some method
  kind : method.kind = node.kind
  leaf : node.kind ≠ .bucketing → node.children = []
  parameters : method.validate node = .ok ()
  order : node.kind = .bucketing → node.validateOrder = .ok ()

theorem validate_eq_ok {node : Node} : node.validate = .ok () ↔ ∃ method, node.Checked method := by
  unfold validate Node.method
  simp only [bind_eq_ok, Method.find_eq_ok, refuse_eq_ok, not_not, not_and, List.isEmpty_iff]
  constructor
  · rintro ⟨method, named, kind, leaf, ⟨⟩, parameters, order⟩
    refine ⟨method, named, kind, leaf, parameters, fun is => ?_⟩
    rwa [if_pos is] at order
  · rintro ⟨method, checked⟩
    refine ⟨method, checked.named, checked.kind, checked.leaf, (), checked.parameters, ?_⟩
    split
    · exact checked.order ‹_›
    · rfl

end Node

namespace Forest

/-! ## A level -/

theorem validateNodes_eq_ok {seen : List String} {nodes : List Node} :
    validateNodes seen nodes = .ok () ↔
      (nodes.map (·.name)).Nodup ∧ (∀ node ∈ nodes, node.name ∉ seen) ∧
        ∀ node ∈ nodes, ∃ method, node.Checked method := by
  induction nodes generalizing seen with
  | nil => simp [validateNodes]
  | cons node nodes ih =>
      rw [validateNodes, refuse_eq_ok, check_eq_ok, ih, Node.validate_eq_ok, List.map_cons,
        List.nodup_cons, List.forall_mem_cons, List.forall_mem_cons]
      have later : (∀ other ∈ nodes, other.name ∉ node.name :: seen) ↔
          node.name ∉ nodes.map (·.name) ∧ ∀ other ∈ nodes, other.name ∉ seen := by
        simp only [List.mem_cons, not_or, List.mem_map, not_exists, not_and, ← forall_and]
      rw [later]
      constructor
      · rintro ⟨fresh, checked, distinct, ⟨other, unseen⟩, all⟩
        exact ⟨⟨other, distinct⟩, ⟨fresh, unseen⟩, checked, all⟩
      · rintro ⟨⟨other, distinct⟩, ⟨fresh, unseen⟩, checked, all⟩
        exact ⟨fresh, checked, distinct, ⟨other, unseen⟩, all⟩

theorem validateDependency_ancestors (siblings : List Node) (ancestors ancestors' : List String)
    (earlier : List Node) (sequences : List String) (node : Node) :
    validateDependency siblings ancestors earlier sequences node = .ok () ↔
      validateDependency siblings ancestors' earlier sequences node = .ok () := by
  unfold validateDependency
  simp only [bind_eq_ok]
  refine exists_congr fun path => and_congr_right fun _ => ?_
  by_cases itself : path.sibling = node.name
  · simp only [itself, if_true]
  · simp only [itself, if_false]
    generalize siblings.find? _ = target
    cases target with
    | none =>
        have refused (ancestors : List String) :
            ¬ (if path.sibling ∈ ancestors then
                .error (.invalidDependency node.name path.sibling .ancestor)
              else .error (.invalidDependency node.name path.sibling .noSibling) :
                Except Error Unit) = .ok () := by
          split <;> simp
        exact iff_of_false (refused _) (refused _)
    | some target => exact Iff.rfl

theorem validatePipelines_ancestors (siblings : List Node) (ancestors ancestors' : List String)
    (earlier : List Node) (sequences : List String) (nodes : List Node) :
    validatePipelines siblings ancestors earlier sequences nodes = .ok () ↔
      validatePipelines siblings ancestors' earlier sequences nodes = .ok () := by
  induction nodes generalizing earlier sequences with
  | nil => exact Iff.rfl
  | cons node nodes ih =>
      unfold validatePipelines
      by_cases is : node.isPipeline
      · simp only [is, if_true, check_eq_ok, ih]
        rw [validateDependency_ancestors siblings ancestors ancestors']
      · simp only [is]
        exact ih _ _

theorem validateLevel_ancestors (ancestors ancestors' : List String) (nodes : List Node) :
    validateLevel ancestors nodes = .ok () ↔ validateLevel ancestors' nodes = .ok () := by
  unfold validateLevel
  simp only [bind_eq_ok, validatePipelines_ancestors nodes ancestors ancestors']

/-! ## All levels -/

mutual

theorem validateBelow_ancestors (ancestors ancestors' : List String) : ∀ node : Node,
    validateBelow ancestors node = .ok () ↔ validateBelow ancestors' node = .ok ()
  | ⟨name, typeName, kind, field, params, children⟩ => by
      simp only [validateBelow, bind_eq_ok, validateLevel_ancestors _ (name :: ancestors'),
        validateAllBelow_ancestors (name :: ancestors) (name :: ancestors') children]

theorem validateAllBelow_ancestors (ancestors ancestors' : List String) : ∀ nodes : List Node,
    validateAllBelow ancestors nodes = .ok () ↔ validateAllBelow ancestors' nodes = .ok ()
  | [] => Iff.rfl
  | node :: nodes => by
      simp only [validateAllBelow, bind_eq_ok, validateBelow_ancestors ancestors ancestors' node,
        validateAllBelow_ancestors ancestors ancestors' nodes]

end

theorem validateBelow_eq_ok (node : Node) :
    validateBelow [] node = .ok () ↔ validate node.children = .ok () := by
  obtain ⟨name, typeName, kind, field, params, children⟩ := node
  simp only [validateBelow, validate, bind_eq_ok, validateLevel_ancestors [name] [],
    validateAllBelow_ancestors [name] []]

theorem validateAllBelow_eq_ok (nodes : List Node) :
    validateAllBelow [] nodes = .ok () ↔ ∀ node ∈ nodes, validate node.children = .ok () := by
  induction nodes with
  | nil => simp [validateAllBelow]
  | cons node nodes ih =>
      simp only [validateAllBelow, check_eq_ok, validateBelow_eq_ok, ih, List.forall_mem_cons]

/-- A forest is accepted exactly if its first level is, and every forest below it. -/
theorem validate_eq_ok {nodes : List Node} :
    validate nodes = .ok () ↔
      validateLevel [] nodes = .ok () ∧ ∀ node ∈ nodes, validate node.children = .ok () := by
  rw [validate, check_eq_ok, validateAllBelow_eq_ok]

section Level

variable {nodes : List Node} (valid : validate nodes = .ok ())

include valid

theorem names_of_validate : (nodes.map (·.name)).Nodup :=
  (validateNodes_eq_ok.mp (check_eq_ok.mp (validate_eq_ok.mp valid).1).1).1

theorem checked_of_validate : ∀ node ∈ nodes, ∃ method, node.Checked method :=
  (validateNodes_eq_ok.mp (check_eq_ok.mp (validate_eq_ok.mp valid).1).1).2.2

theorem below_of_validate : ∀ node ∈ nodes, validate node.children = .ok () :=
  (validate_eq_ok.mp valid).2

end Level

/-- Nodes of a valid level are known by their names. -/
theorem eq_of_name {nodes : List Node} (valid : validate nodes = .ok ()) {node other : Node}
    (hnode : node ∈ nodes) (hother : other ∈ nodes) (same : node.name = other.name) :
    node = other :=
  List.inj_on_of_nodup_map (names_of_validate valid) hnode hother same

end Forest

end Rollup
