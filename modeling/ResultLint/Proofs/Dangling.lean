import Mathlib
import ResultLint.Proofs.Translation.Programs

/-!
# Dangling numbers of types

A number outside the table of types stands for `unknown`, wherever it turns up: as a member of a
union, a constraint, a parameter, a result, an element or a property, or as a type of a node.  So it
may as well be replaced by `unknown`.

* `Program.translates_withoutDangling`: the program translates into the one without dangling
  numbers, and each node keeps its number.
* `lint_withoutDangling`: **the report stays the same in every respect.**
-/

namespace ResultLint

/-- The number itself if it is in the table, and else `unknown`. -/
def TypeTable.orUnknown (t : TypeTable) (id : TypeId) : TypeId :=
  if t.contains id then id else .unknown

namespace Program

/-- The program with `unknown` for all numbers of types that are outside its table. -/
def withoutDangling (p : Program) : Program where
  types := ⟨p.types.entries.map (·.map p.types.orUnknown)⟩
  tree :=
    { nodes := p.tree.nodes.map fun node =>
        { node with
          type := node.type.map p.types.orUnknown
          contextualType := node.contextualType.map p.types.orUnknown }
      root := p.tree.root }

end Program

namespace TypeTable

variable {t : TypeTable} {id : TypeId}

theorem orUnknown_of_contains (h : t.contains id = true) : t.orUnknown id = id := if_pos h

theorem known_orUnknown (t : TypeTable) (id : TypeId) : t.Known t.orUnknown id := by
  by_cases h : t.contains id = true
  · exact Or.inl h
  · exact Or.inr (if_neg h)

theorem contains_orUnknown (h : t.contains .unknown = true) (id : TypeId) :
    t.contains (t.orUnknown id) = true := by
  rw [orUnknown]
  split
  next hid => exact hid
  next => exact h

end TypeTable

namespace Program

variable {p : Program}

theorem get?_withoutDangling_types (p : Program) (id : TypeId) :
    p.withoutDangling.types.get? id = (p.types.get? id).map (·.map p.types.orUnknown) :=
  Array.getElem?_map

theorem contains_withoutDangling (p : Program) (id : TypeId) :
    p.withoutDangling.types.contains id = p.types.contains id :=
  congrArg (fun size => decide (id.index < size)) Array.size_map

theorem get?_withoutDangling_tree (p : Program) (n : NodeId) :
    p.withoutDangling.tree.get? n = (p.tree.get? n).map (·.map p.types.orUnknown id) := by
  refine Array.getElem?_map.trans (Option.map_congr fun node _ => ?_)
  rw [Node.map, NodeKind.map_id]

/-- **The program translates into the one without dangling numbers.** -/
theorem translates_withoutDangling
    (h : p.types.get? .unknown = some (.primitive .unknown)) :
    p.Translates p.types.orUnknown id p.withoutDangling where
  types := {
    unknown := h
    fixed := p.types.orUnknown_of_contains (TypeTable.contains_iff.2 ⟨_, h⟩)
    entry := fun {id ty} hty => by
      rw [p.types.orUnknown_of_contains (TypeTable.contains_iff.2 ⟨ty, hty⟩),
        get?_withoutDangling_types, hty, Option.map_some]
    injective := fun ha hb heq => by
      rwa [p.types.orUnknown_of_contains ha, p.types.orUnknown_of_contains hb] at heq
    mentioned := fun _ _ => p.types.known_orUnknown _ }
  root := rfl
  size := Array.size_map
  injective := Function.injective_id
  node := p.get?_withoutDangling_tree
  type _ _ := p.types.known_orUnknown _
  contextualType _ _ := p.types.known_orUnknown _

/-- Without dangling numbers a program is valid, if it has the primitives, a root and parts that
come before the whole. -/
theorem valid_withoutDangling
    (hprimitive : ∀ q : Primitive, p.types.get? q.id = some (.primitive q))
    (hchild : ∀ {id : NodeId} {node : Node} {n : NodeId}, p.tree.get? id = some node →
      node.kind.Mentions n → n.index < id.index)
    (hroot : p.tree.root.index < p.tree.size) : p.withoutDangling.Valid := by
  have hknown : ∀ id, p.withoutDangling.types.contains (p.types.orUnknown id) = true := by
    intro id
    rw [contains_withoutDangling]
    exact TypeTable.contains_orUnknown (TypeTable.contains_iff.2 ⟨_, hprimitive .unknown⟩) id
  have hnode : ∀ {n : NodeId} {node : Node}, p.withoutDangling.tree.get? n = some node →
      ∃ node₀, p.tree.get? n = some node₀ ∧ node₀.map p.types.orUnknown id = node := by
    intro n node hn
    rw [get?_withoutDangling_tree] at hn
    exact Option.map_eq_some_iff.1 hn
  refine ⟨⟨fun q => ?_, fun {id ty s} hty hs => ?_⟩, ?_, fun {id node n} hn hm => ?_,
    fun {id node s} hn hs => ?_, fun {id node s} hn hs => ?_⟩
  · rw [get?_withoutDangling_types, hprimitive]
    rfl
  · rw [get?_withoutDangling_types] at hty
    obtain ⟨ty₀, _, rfl⟩ := Option.map_eq_some_iff.1 hty
    obtain ⟨s₀, _, rfl⟩ := Ty.mentions_map_iff.1 hs
    exact hknown s₀
  · exact hroot.trans_eq Array.size_map.symm
  · obtain ⟨node₀, hn₀, rfl⟩ := hnode hn
    rw [Node.map, NodeKind.map_id] at hm
    exact hchild hn₀ hm
  · obtain ⟨node₀, _, rfl⟩ := hnode hn
    obtain ⟨s₀, _, rfl⟩ := Option.map_eq_some_iff.1 hs
    exact hknown s₀
  · obtain ⟨node₀, _, rfl⟩ := hnode hn
    obtain ⟨s₀, _, rfl⟩ := Option.map_eq_some_iff.1 hs
    exact hknown s₀

end Program

namespace Config

/-- **Dangling numbers of types behave as `unknown`.**  If the primitives are in place and the parts
of nodes come before the whole, replacing all numbers outside the table by `unknown` leaves the
report as it is, and the program is accepted afterwards unless its root is missing. -/
theorem lint_withoutDangling {p : Program}
    (hprimitive : ∀ q : Primitive, p.types.get? q.id = some (.primitive q))
    (hchild : ∀ {id : NodeId} {node : Node} {n : NodeId}, p.tree.get? id = some node →
      node.kind.Mentions n → n.index < id.index) :
    (p.tree.root.index < p.tree.size → p.withoutDangling.validate = .ok ()) ∧
    ∀ config : Config, config.lint p.withoutDangling = config.lint p := by
  refine ⟨fun hroot => ?_, fun config => ?_⟩
  · exact Program.validate_eq_ok_iff.2 (Program.valid_withoutDangling hprimitive hchild hroot)
  · have hlint := (Program.translates_withoutDangling (hprimitive .unknown)).lint_eq config
    exact hlint.trans (List.map_id _)

/-- A class with the parents `Q`, whose type is missing, and `P`, and the statements `r;` and `u;`,
with dangling numbers in all sorts of types. -/
def danglingProgram : Program :=
  ⟨⟨TypeTable.primitives.entries ++ #[
      .literal (.string "success"),
      .union [⟨70⟩, ⟨9⟩],
      .object { properties := [⟨"tag", ⟨10⟩⟩, ⟨"success", ⟨71⟩⟩] },
      .parameter "T" (some ⟨72⟩),
      .object { callSignatures := [⟨[⟨"rest", ⟨73⟩, true⟩], ⟨3⟩⟩, ⟨[], ⟨74⟩⟩] },
      .object { callSignatures := [⟨[⟨"u", ⟨12⟩, false⟩], ⟨11⟩⟩] },
      .object { name := some "P", properties := [⟨"m", ⟨13⟩⟩] }]⟩,
    ⟨#[
      { kind := .identifier "Q", type := some ⟨75⟩ },
      { kind := .identifier "P", type := some ⟨15⟩ },
      { kind := .classMember (.name "m") .method none false, type := some ⟨14⟩ },
      { kind := .classDeclaration "C" [⟨0⟩, ⟨1⟩] [⟨2⟩] },
      { kind := .identifier "r", type := some ⟨11⟩, contextualType := some ⟨76⟩ },
      { kind := .expressionStatement ⟨4⟩ },
      { kind := .identifier "u", type := some ⟨12⟩ },
      { kind := .expressionStatement ⟨6⟩ },
      { kind := .program [⟨3⟩, ⟨5⟩, ⟨7⟩] }], ⟨8⟩⟩⟩

theorem lint_withoutDangling_parents :
    (∃ v, danglingProgram.validate = .error v) ∧
    danglingProgram.withoutDangling.validate = .ok () ∧
    (Config.lint {} danglingProgram).map (fun d => (d.kind, d.node)) =
      [(.voidReturnInheritedMethod "P", ⟨2⟩), (.floating, ⟨5⟩)] ∧
    ∀ config : Config,
      config.lint danglingProgram.withoutDangling = config.lint danglingProgram := by
  have hprimitive : ∀ q : Primitive, danglingProgram.types.get? q.id = some (.primitive q) := by
    intro q
    cases q <;> rfl
  have hchildren : ∀ id ∈ danglingProgram.tree.ids, ∀ n ∈ danglingProgram.tree.children id,
      n.index < id.index := by decide
  have hlint := lint_withoutDangling hprimitive fun {id node n} hn hm => by
    have hk : danglingProgram.tree.kind? id = some node.kind := by
      rw [Tree.kind?, hn, Option.map_some]
    exact hchildren id (Tree.mem_ids.2 ⟨node, hn⟩) n (Tree.child_of_kind? hk hm)
  exact ⟨⟨_, rfl⟩, hlint.1 (by decide), by cbv, hlint.2⟩

end Config

end ResultLint
