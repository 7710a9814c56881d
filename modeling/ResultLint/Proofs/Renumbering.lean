import Mathlib
import ResultLint.Proofs.Translation.Programs

/-!
# Renumbering

Types and nodes have numbers because they refer to each other.  A **renumbering** moves the types of
a program, apart from the primitives, and its nodes, as long as parts still come before the whole,
and changes all references accordingly.

* `Renumbering.valid_program`: a valid program stays valid.
* `Renumbering.translates`: it translates into the renumbered one.
* `lint_renumbering`: **so its report stays the same, with the new numbers of nodes.**
-/

namespace ResultLint

/-! ## Numbers and places -/

section

variable {n : Nat} (σ : Equiv.Perm (Fin n))

/-- The new number of `i`, if it is among the numbers that are permuted. -/
def renumber (i : Nat) : Nat := if h : i < n then (σ ⟨i, h⟩).val else i

theorem renumber_of_lt {i : Nat} (h : i < n) : renumber σ i = (σ ⟨i, h⟩).val := dif_pos h

theorem renumber_lt_iff {i : Nat} : renumber σ i < n ↔ i < n := by
  by_cases h : i < n
  · rw [renumber_of_lt σ h]
    exact iff_of_true (σ ⟨i, h⟩).isLt h
  · rw [renumber, dif_neg h]

theorem renumber_symm_renumber (i : Nat) : renumber σ.symm (renumber σ i) = i := by
  by_cases h : i < n
  · rw [renumber_of_lt σ h, renumber_of_lt σ.symm (σ ⟨i, h⟩).isLt, Fin.eta, σ.symm_apply_apply]
  · rw [renumber, dif_neg (mt (renumber_lt_iff σ).1 h), renumber, dif_neg h]

theorem renumber_renumber_symm (i : Nat) : renumber σ (renumber σ.symm i) = i := by
  have h := renumber_symm_renumber σ.symm i
  rwa [σ.symm_symm] at h

theorem renumber_injective : Function.Injective (renumber σ) :=
  Function.LeftInverse.injective (renumber_symm_renumber σ)

end

/-- The items at their new places. -/
def moved {α : Type} (xs : Array α) (σ : Equiv.Perm (Fin xs.size)) : Array α :=
  Array.ofFn fun i => xs[σ.symm i]

theorem size_moved {α : Type} (xs : Array α) (σ : Equiv.Perm (Fin xs.size)) :
    (moved xs σ).size = xs.size :=
  Array.size_ofFn

theorem getElem?_moved {α : Type} (xs : Array α) (σ : Equiv.Perm (Fin xs.size)) (i : Nat) :
    (moved xs σ)[renumber σ i]? = xs[i]? := by
  by_cases h : i < xs.size
  · rw [renumber_of_lt σ h, moved, Array.getElem?_ofFn, dif_pos (σ ⟨i, h⟩).isLt, Fin.eta,
      Array.getElem?_eq_getElem h]
    simp only [σ.symm_apply_apply, Fin.getElem_fin]
  · have hsize : ¬ renumber σ i < (moved xs σ).size := by
      rw [size_moved, renumber_lt_iff]
      exact h
    rw [Array.getElem?_eq_none (by omega), Array.getElem?_eq_none (by omega)]

/-! ## Programs -/

/-- New numbers for the types and the nodes of a program.  The primitives keep their numbers, and
parts of nodes still come before the whole. -/
structure Renumbering (p : Program) where
  types : Equiv.Perm (Fin p.types.size)
  nodes : Equiv.Perm (Fin p.tree.size)
  fixed : ∀ i, i.val < Primitive.all.length → types i = i
  ordered : ∀ n ∈ p.tree.ids, ∀ child ∈ p.tree.children n,
    renumber nodes child.index < renumber nodes n.index

namespace Renumbering

variable {p : Program} (r : Renumbering p)

def type (id : TypeId) : TypeId := ⟨renumber r.types id.index⟩

def node (id : NodeId) : NodeId := ⟨renumber r.nodes id.index⟩

/-- The program with its types and nodes moved and all references rewritten. -/
def program : Program where
  types := ⟨(moved p.types.entries r.types).map (·.map r.type)⟩
  tree := ⟨(moved p.tree.nodes r.nodes).map (·.map r.type r.node), r.node p.tree.root⟩

theorem get?_type (id : TypeId) :
    r.program.types.get? (r.type id) = (p.types.get? id).map (·.map r.type) :=
  Array.getElem?_map.trans (congrArg _ (getElem?_moved p.types.entries r.types id.index))

theorem get?_node (id : NodeId) :
    r.program.tree.get? (r.node id) = (p.tree.get? id).map (·.map r.type r.node) :=
  Array.getElem?_map.trans (congrArg _ (getElem?_moved p.tree.nodes r.nodes id.index))

theorem size_program : r.program.tree.size = p.tree.size :=
  Array.size_map.trans (size_moved p.tree.nodes r.nodes)

theorem type_injective : Function.Injective r.type := by
  intro a b h
  cases a
  cases b
  exact congrArg TypeId.mk (renumber_injective r.types (congrArg TypeId.index h))

theorem node_injective : Function.Injective r.node := by
  intro a b h
  cases a
  cases b
  exact congrArg NodeId.mk (renumber_injective r.nodes (congrArg NodeId.index h))

theorem exists_type (id : TypeId) : ∃ a, r.type a = id :=
  ⟨⟨renumber r.types.symm id.index⟩, congrArg TypeId.mk (renumber_renumber_symm r.types id.index)⟩

theorem exists_node (id : NodeId) : ∃ a, r.node a = id :=
  ⟨⟨renumber r.nodes.symm id.index⟩, congrArg NodeId.mk (renumber_renumber_symm r.nodes id.index)⟩

theorem contains_type {id : TypeId} (h : p.types.contains id = true) :
    r.program.types.contains (r.type id) = true := by
  obtain ⟨ty, hty⟩ := TypeTable.contains_iff.1 h
  refine TypeTable.contains_iff.2 ⟨ty.map r.type, ?_⟩
  rw [get?_type, hty, Option.map_some]

theorem exists_get?_type {id : TypeId} {ty : Ty} (h : r.program.types.get? id = some ty) :
    ∃ a ty₀, p.types.get? a = some ty₀ ∧ r.type a = id ∧ ty₀.map r.type = ty := by
  obtain ⟨a, rfl⟩ := r.exists_type id
  rw [get?_type] at h
  obtain ⟨ty₀, hty₀, rfl⟩ := Option.map_eq_some_iff.1 h
  exact ⟨a, ty₀, hty₀, rfl, rfl⟩

theorem exists_get?_node {id : NodeId} {node : Node} (h : r.program.tree.get? id = some node) :
    ∃ a node₀, p.tree.get? a = some node₀ ∧ r.node a = id ∧ node₀.map r.type r.node = node := by
  obtain ⟨a, rfl⟩ := r.exists_node id
  rw [get?_node] at h
  obtain ⟨node₀, hnode₀, rfl⟩ := Option.map_eq_some_iff.1 h
  exact ⟨a, node₀, hnode₀, rfl, rfl⟩

theorem index_lt_of_mentions {n child : NodeId} {node : Node} (hn : p.tree.get? n = some node)
    (hm : node.kind.Mentions child) : (r.node child).index < (r.node n).index := by
  have hk : p.tree.kind? n = some node.kind := by rw [Tree.kind?, hn, Option.map_some]
  exact r.ordered n (Tree.mem_ids.2 ⟨node, hn⟩) child (Tree.child_of_kind? hk hm)

variable (h : p.Valid)

include h

theorem type_primitive (q : Primitive) : r.type q.id = q.id := by
  have hlt : q.id.index < p.types.size := by
    have hcontains := TypeTable.contains_iff.2 ⟨_, h.types.primitive q⟩
    exact of_decide_eq_true hcontains
  have hsmall : ∀ q : Primitive, q.id.index < Primitive.all.length := by
    intro q
    cases q <;> decide
  rw [type, renumber_of_lt r.types hlt, r.fixed ⟨q.id.index, hlt⟩ (hsmall q)]

/-- **The program translates into the renumbered one.** -/
theorem translates : p.Translates r.type r.node r.program where
  types := {
    unknown := h.types.primitive .unknown
    fixed := r.type_primitive h .unknown
    entry := fun hty => by rw [get?_type, hty, Option.map_some]
    injective := fun _ _ heq => r.type_injective heq
    mentioned := fun hty hr => Or.inl (h.types.mentioned hty hr) }
  root := rfl
  size := r.size_program
  injective := r.node_injective
  node := r.get?_node
  type hn hr := Or.inl (h.type hn hr)
  contextualType hn hr := Or.inl (h.contextualType hn hr)

/-- **A valid program stays valid.** -/
theorem valid_program : r.program.Valid where
  types := by
    constructor
    · intro q
      have hq := r.get?_type q.id
      rwa [r.type_primitive h, h.types.primitive] at hq
    · intro id ty s hty hs
      obtain ⟨a, ty₀, hty₀, rfl, rfl⟩ := r.exists_get?_type hty
      obtain ⟨s₀, hs₀, rfl⟩ := Ty.mentions_map_iff.1 hs
      exact r.contains_type (h.types.mentioned hty₀ hs₀)
  root := by
    rw [size_program]
    exact (renumber_lt_iff r.nodes).2 h.root
  child := by
    intro id node child hn hm
    obtain ⟨a, node₀, hn₀, rfl, rfl⟩ := r.exists_get?_node hn
    obtain ⟨child₀, hm₀, rfl⟩ := (NodeKind.mentions_map_iff r.node).1 hm
    exact r.index_lt_of_mentions hn₀ hm₀
  type := by
    intro id node s hn hs
    obtain ⟨a, node₀, hn₀, rfl, rfl⟩ := r.exists_get?_node hn
    obtain ⟨s₀, hs₀, rfl⟩ := Option.map_eq_some_iff.1 hs
    exact r.contains_type (h.type hn₀ hs₀)
  contextualType := by
    intro id node s hn hs
    obtain ⟨a, node₀, hn₀, rfl, rfl⟩ := r.exists_get?_node hn
    obtain ⟨s₀, hs₀, rfl⟩ := Option.map_eq_some_iff.1 hs
    exact r.contains_type (h.contextualType hn₀ hs₀)

end Renumbering

namespace Config

/-- **Linting does not depend on numbers.**  A renumbered program is accepted like the program
itself, and its report has the same diagnostics in the same order, with the new numbers of their
nodes. -/
theorem lint_renumbering {p : Program} (h : p.validate = .ok ()) (r : Renumbering p) :
    r.program.validate = .ok () ∧ ∀ config : Config,
      config.lint r.program = (config.lint p).map fun d => { d with node := r.node d.node } := by
  have hp : p.Valid := Program.validate_eq_ok_iff.1 h
  exact ⟨Program.validate_eq_ok_iff.2 (r.valid_program hp), (r.translates hp).lint_eq⟩

/-- `r;` and a class whose parent `P` expects its method to return nothing. -/
def numberedProgram : Program :=
  ⟨⟨TypeTable.primitives.entries ++ #[
      .literal (.string "success"),
      .object { properties := [⟨"tag", ⟨9⟩⟩, ⟨"success", ⟨7⟩⟩] },
      .object { callSignatures := [⟨[], ⟨3⟩⟩] },
      .object { callSignatures := [⟨[], ⟨10⟩⟩] },
      .object { name := some "P", properties := [⟨"m", ⟨11⟩⟩] }]⟩,
    ⟨#[
      { kind := .identifier "r", span := ⟨0, 1, 1, 1⟩, type := some ⟨10⟩ },
      { kind := .expressionStatement ⟨0⟩, span := ⟨0, 2, 1, 1⟩ },
      { kind := .identifier "P", type := some ⟨13⟩ },
      { kind := .classMember (.name "m") .method none false, span := ⟨5, 9, 2, 3⟩,
        type := some ⟨12⟩ },
      { kind := .classDeclaration "C" [⟨2⟩] [⟨3⟩] },
      { kind := .program [⟨1⟩, ⟨4⟩] }], ⟨5⟩⟩⟩

/-- The class comes first, and its parent is the first type after the primitives. -/
def numberedProgram.classFirst : Renumbering numberedProgram where
  types := (Equiv.swap 9 13 : Equiv.Perm (Fin 14))
  nodes := (Equiv.swap 0 2 * Equiv.swap 1 3 : Equiv.Perm (Fin 6))
  fixed := by decide
  ordered := by decide

theorem lint_renumbering_classFirst :
    numberedProgram.validate = .ok () ∧
    (Config.lint {} numberedProgram).map (fun d => (d.kind, d.node)) =
      [(.floating, ⟨1⟩), (.voidReturnInheritedMethod "P", ⟨3⟩)] ∧
    numberedProgram.classFirst.program.validate = .ok () ∧
    (Config.lint {} numberedProgram.classFirst.program).map (fun d => (d.kind, d.node)) =
      [(.floating, ⟨3⟩), (.voidReturnInheritedMethod "P", ⟨1⟩)] := by
  obtain ⟨hvalid, hlint⟩ := lint_renumbering rfl numberedProgram.classFirst
  refine ⟨rfl, by cbv, hvalid, ?_⟩
  rw [hlint, List.map_map]
  cbv

end Config

end ResultLint
