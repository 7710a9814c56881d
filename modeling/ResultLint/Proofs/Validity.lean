import Mathlib.Logic.Basic
import ResultLint.Program.Validity
import ResultLint.Types.Apparent

/-!
# Valid programs

What `Program.validate` accepts, said without it.  `Ty.Mentions` and `NodeKind.Mentions` go through
the fields of a type and of a node one by one, so that a number that `Ty.references` or
`NodeKind.children` left out would show.

* `TypeTable.WellFormed`: the primitives are in place and every number that an entry mentions is in
  the table.  Unions and constraints may lead round a cycle.
* `Program.Valid`: the table is well-formed, the root is a node, the parts of a node have smaller
  numbers than the node, and the types of nodes are in the table.
* `validate_eq_ok_iff`: **a program passes exactly if it is valid.**
-/

namespace ResultLint

/-! ## Checks one after another -/

theorem bind_eq_ok_iff {ε α : Type} {x : Except ε Unit} {f : Unit → Except ε α} {a : α} :
    (x >>= f) = .ok a ↔ x = .ok () ∧ f () = .ok a := by
  cases x with
  | error e => simp [bind, Except.bind]
  | ok u => simp [bind, Except.bind]

/-- Checks one after another pass if each does. -/
theorem forM_eq_ok_iff {ε α : Type} {f : α → Except ε Unit} {l : List α} :
    l.forM f = .ok () ↔ ∀ x ∈ l, f x = .ok () := by
  induction l with
  | nil => simp [pure, Except.pure]
  | cons x l ih =>
    rw [List.forM_eq_forM] at ih ⊢
    rw [List.forM_cons, bind_eq_ok_iff, ih, List.forall_mem_cons]

theorem require_eq_ok_iff {b : Bool} {v : Violation} : require b v = .ok () ↔ b = true := by
  cases b <;> simp [require]

/-! ## What a type mentions -/

/-- The number stands in the type, as a property, a parameter, a member and so on. -/
inductive Ty.Mentions : Ty → TypeId → Prop
  | property {o : ObjectType} {p : Property} (h : p ∈ o.properties) : Mentions (.object o) p.type
  | callParameter {o : ObjectType} {s : Signature} {p : Parameter} (hs : s ∈ o.callSignatures)
      (hp : p ∈ s.params) : Mentions (.object o) p.type
  | callReturn {o : ObjectType} {s : Signature} (hs : s ∈ o.callSignatures) :
      Mentions (.object o) s.returnType
  | constructParameter {o : ObjectType} {s : Signature} {p : Parameter}
      (hs : s ∈ o.constructSignatures) (hp : p ∈ s.params) : Mentions (.object o) p.type
  | constructReturn {o : ObjectType} {s : Signature} (hs : s ∈ o.constructSignatures) :
      Mentions (.object o) s.returnType
  | member {members : List TypeId} {m : TypeId} (h : m ∈ members) : Mentions (.union members) m
  | arrayElement (element : TypeId) : Mentions (.array element) element
  | tupleElement {elements : List TypeId} {e : TypeId} (h : e ∈ elements) :
      Mentions (.tuple elements) e
  | constraint (name : String) (c : TypeId) : Mentions (.parameter name (some c)) c

theorem Signature.mem_references {s : Signature} {r : TypeId} :
    r ∈ s.references ↔ (∃ p ∈ s.params, p.type = r) ∨ s.returnType = r := by
  simp [Signature.references, eq_comm]

theorem ObjectType.mem_references {o : ObjectType} {r : TypeId} :
    r ∈ o.references ↔ (∃ p ∈ o.properties, p.type = r) ∨
      (∃ s ∈ o.callSignatures, r ∈ s.references) ∨
      ∃ s ∈ o.constructSignatures, r ∈ s.references := by
  simp only [ObjectType.references, List.mem_append, List.mem_map, List.mem_flatMap, or_and_right,
    exists_or]

/-- **No mention of a number is left out of the references, and no other number is in them.** -/
theorem Ty.mem_references_iff {ty : Ty} {r : TypeId} : r ∈ ty.references ↔ ty.Mentions r := by
  constructor
  · intro h
    cases ty with
    | primitive _ => simp [references] at h
    | literal _ => simp [references] at h
    | object o =>
      rcases ObjectType.mem_references.1 h with ⟨p, hp, rfl⟩ | ⟨s, hs, hr⟩ | ⟨s, hs, hr⟩
      · exact .property hp
      · rcases Signature.mem_references.1 hr with ⟨p, hp, rfl⟩ | rfl
        · exact .callParameter hs hp
        · exact .callReturn hs
      · rcases Signature.mem_references.1 hr with ⟨p, hp, rfl⟩ | rfl
        · exact .constructParameter hs hp
        · exact .constructReturn hs
    | union members => exact .member h
    | array element =>
      rw [List.mem_singleton.1 h]
      exact .arrayElement element
    | tuple elements => exact .tupleElement h
    | parameter name constraint =>
      cases constraint with
      | none => simp [references] at h
      | some c =>
        rw [List.mem_singleton.1 h]
        exact .constraint name c
  · intro h
    cases h with
    | property hp => exact ObjectType.mem_references.2 (.inl ⟨_, hp, rfl⟩)
    | callParameter hs hp =>
      exact ObjectType.mem_references.2
        (.inr (.inl ⟨_, hs, Signature.mem_references.2 (.inl ⟨_, hp, rfl⟩)⟩))
    | callReturn hs =>
      exact ObjectType.mem_references.2
        (.inr (.inl ⟨_, hs, Signature.mem_references.2 (.inr rfl)⟩))
    | constructParameter hs hp =>
      exact ObjectType.mem_references.2
        (.inr (.inr ⟨_, hs, Signature.mem_references.2 (.inl ⟨_, hp, rfl⟩)⟩))
    | constructReturn hs =>
      exact ObjectType.mem_references.2
        (.inr (.inr ⟨_, hs, Signature.mem_references.2 (.inr rfl)⟩))
    | member h => exact h
    | arrayElement element => exact List.mem_singleton_self _
    | tupleElement h => exact h
    | constraint name c => exact List.mem_singleton_self _

/-! ## What a node mentions -/

/-- The number stands in the node, in one of its fields or in a list, an option or a computed key
there. -/
inductive NodeKind.Mentions : NodeKind → NodeId → Prop
  | programBody {body : List NodeId} {n : NodeId} (h : n ∈ body) : Mentions (.program body) n
  | blockBody {body : List NodeId} {n : NodeId} (h : n ∈ body) : Mentions (.block body) n
  | statementExpression (n : NodeId) : Mentions (.expressionStatement n) n
  | ifTest (n c : NodeId) (a : Option NodeId) : Mentions (.ifElse n c a) n
  | ifConsequent (t n : NodeId) (a : Option NodeId) : Mentions (.ifElse t n a) n
  | ifAlternate (t c n : NodeId) : Mentions (.ifElse t c (some n)) n
  | whileTest (n b : NodeId) : Mentions (.whileLoop n b) n
  | whileBody (t n : NodeId) : Mentions (.whileLoop t n) n
  | doWhileBody (n t : NodeId) : Mentions (.doWhileLoop n t) n
  | doWhileTest (b n : NodeId) : Mentions (.doWhileLoop b n) n
  | forInit (n : NodeId) (t u : Option NodeId) (b : NodeId) : Mentions (.forLoop (some n) t u b) n
  | forTest (i : Option NodeId) (n : NodeId) (u : Option NodeId) (b : NodeId) :
      Mentions (.forLoop i (some n) u b) n
  | forUpdate (i t : Option NodeId) (n b : NodeId) : Mentions (.forLoop i t (some n) b) n
  | forBody (i t u : Option NodeId) (n : NodeId) : Mentions (.forLoop i t u n) n
  | returnArgument (n : NodeId) : Mentions (.returnStatement (some n)) n
  | declarator {declarators : List NodeId} {n : NodeId} (h : n ∈ declarators) :
      Mentions (.variableDeclaration declarators) n
  | declaratorTarget (n : NodeId) (i : Option NodeId) : Mentions (.variableDeclarator n i) n
  | declaratorInit (t n : NodeId) : Mentions (.variableDeclarator t (some n)) n
  | functionParameter (f : FunctionForm) (s : Option String) {params : List NodeId} (b : NodeId)
      {n : NodeId} (h : n ∈ params) : Mentions (.function f s params b) n
  | functionBody (f : FunctionForm) (s : Option String) (params : List NodeId) (n : NodeId) :
      Mentions (.function f s params n) n
  | classHeritage (s : String) {heritage : List NodeId} (members : List NodeId) {n : NodeId}
      (h : n ∈ heritage) : Mentions (.classDeclaration s heritage members) n
  | classBody (s : String) (heritage : List NodeId) {members : List NodeId} {n : NodeId}
      (h : n ∈ members) : Mentions (.classDeclaration s heritage members) n
  | interfaceHeritage (s : String) {heritage : List NodeId} (members : List NodeId) {n : NodeId}
      (h : n ∈ heritage) : Mentions (.interfaceDeclaration s heritage members) n
  | interfaceBody (s : String) (heritage : List NodeId) {members : List NodeId} {n : NodeId}
      (h : n ∈ members) : Mentions (.interfaceDeclaration s heritage members) n
  | classMemberKey (n : NodeId) (f : MemberForm) (v : Option NodeId) (b : Bool) :
      Mentions (.classMember (.computed n) f v b) n
  | classMemberValue (k : Key) (f : MemberForm) (n : NodeId) (b : Bool) :
      Mentions (.classMember k f (some n) b) n
  | sequenceItem {items : List NodeId} {n : NodeId} (h : n ∈ items) : Mentions (.sequence items) n
  | unaryArgument (o : UnaryOp) (n : NodeId) : Mentions (.unary o n) n
  | binaryLeft (o : String) (n r : NodeId) : Mentions (.binary o n r) n
  | binaryRight (o : String) (l n : NodeId) : Mentions (.binary o l n) n
  | logicalLeft (o : LogicalOp) (n r : NodeId) : Mentions (.logical o n r) n
  | logicalRight (o : LogicalOp) (l n : NodeId) : Mentions (.logical o l n) n
  | conditionalTest (n c a : NodeId) : Mentions (.conditional n c a) n
  | conditionalConsequent (t n a : NodeId) : Mentions (.conditional t n a) n
  | conditionalAlternate (t c n : NodeId) : Mentions (.conditional t c n) n
  | assignmentLeft (o : String) (n r : NodeId) : Mentions (.assignment o n r) n
  | assignmentRight (o : String) (l n : NodeId) : Mentions (.assignment o l n) n
  | callCallee (n : NodeId) (arguments : List NodeId) (b : Bool) : Mentions (.call n arguments b) n
  | callArgument (c : NodeId) {arguments : List NodeId} (b : Bool) {n : NodeId}
      (h : n ∈ arguments) : Mentions (.call c arguments b) n
  | constructCallee (n : NodeId) (arguments : Option (List NodeId)) :
      Mentions (.construct n arguments) n
  | constructArgument (c : NodeId) {arguments : List NodeId} {n : NodeId} (h : n ∈ arguments) :
      Mentions (.construct c (some arguments)) n
  | memberObject (n : NodeId) (k : Key) (b : Bool) : Mentions (.member n k b) n
  | memberKey (o n : NodeId) (b : Bool) : Mentions (.member o (.computed n) b) n
  | chainExpression (n : NodeId) : Mentions (.chain n) n
  | objectProperty {properties : List NodeId} {n : NodeId} (h : n ∈ properties) :
      Mentions (.objectLiteral properties) n
  | propertyKey (n v : NodeId) (f : PropertyForm) : Mentions (.property (.computed n) v f) n
  | propertyValue (k : Key) (n : NodeId) (f : PropertyForm) : Mentions (.property k n f) n
  | arrayItem {elements : List NodeId} {n : NodeId} (h : n ∈ elements) :
      Mentions (.arrayLiteral elements) n
  | spreadArgument (n : NodeId) : Mentions (.spread n) n
  | elementAttribute (s : String) {attributes : List NodeId} (children : List NodeId) {n : NodeId}
      (h : n ∈ attributes) : Mentions (.element s attributes children) n
  | elementChild (s : String) (attributes : List NodeId) {children : List NodeId} {n : NodeId}
      (h : n ∈ children) : Mentions (.element s attributes children) n
  | attributeValue (s : String) (n : NodeId) : Mentions (.elementAttribute s (some n)) n

theorem Key.node?_eq_some_iff {k : Key} {n : NodeId} : k.node? = some n ↔ k = .computed n := by
  cases k <;> simp [Key.node?]

theorem mem_getD_nil_iff {α : Type} {o : Option (List α)} {a : α} :
    a ∈ o.getD [] ↔ ∃ l, o = some l ∧ a ∈ l := by
  cases o <;> simp

/-- **No mention of a node is left out of the children, and no other node is in them.** -/
theorem NodeKind.mem_children_iff {k : NodeKind} {n : NodeId} : n ∈ k.children ↔ k.Mentions n := by
  constructor
  · intro h
    cases k <;> simp only [children, List.mem_append, List.mem_cons, List.not_mem_nil, or_false,
      Option.mem_toList, Key.node?_eq_some_iff, mem_getD_nil_iff] at h <;> grind [NodeKind.Mentions]
  · intro h
    cases h <;> simp_all [children, Key.node?]

/-! ## Tables -/

namespace TypeTable

theorem contains_iff {t : TypeTable} {id : TypeId} :
    t.contains id = true ↔ ∃ ty, t.get? id = some ty := by
  rw [← Option.isSome_iff_exists, contains, decide_eq_true_iff]
  simp [get?, size]

theorem resolve_of_get? {t : TypeTable} {id : TypeId} {ty : Ty} (h : t.get? id = some ty) :
    t.resolve id = ty := by
  rw [resolve, h, Option.getD_some]

/-- The primitives are in place, and every number that an entry mentions is in the table. -/
structure WellFormed (t : TypeTable) : Prop where
  primitive : ∀ p : Primitive, t.get? p.id = some (.primitive p)
  mentioned : ∀ {id : TypeId} {ty : Ty} {r : TypeId}, t.get? id = some ty → ty.Mentions r →
    t.contains r = true

theorem checkPrimitive_eq_ok_iff {t : TypeTable} {p : Primitive} :
    t.checkPrimitive p = .ok () ↔ t.get? p.id = some (.primitive p) := by
  rw [checkPrimitive, require_eq_ok_iff, decide_eq_true_iff]

theorem checkEntry_eq_ok_iff {t : TypeTable} {id : TypeId} {ty : Ty} (h : t.get? id = some ty) :
    t.checkEntry id = .ok () ↔ ∀ r, ty.Mentions r → t.contains r = true := by
  rw [checkEntry, resolve_of_get? h, forM_eq_ok_iff]
  simp only [require_eq_ok_iff, Ty.mem_references_iff]

/-- **A table passes the checks of types exactly if it is well-formed.** -/
theorem wellFormed_iff {t : TypeTable} :
    t.WellFormed ↔
      Primitive.all.forM t.checkPrimitive = .ok () ∧ t.ids.forM t.checkEntry = .ok () := by
  rw [forM_eq_ok_iff, forM_eq_ok_iff]
  constructor
  · intro h
    refine ⟨fun p _ => checkPrimitive_eq_ok_iff.2 (h.primitive p), fun id hid => ?_⟩
    obtain ⟨ty, hty⟩ := Option.isSome_iff_exists.1 (mem_ids.1 hid)
    exact (checkEntry_eq_ok_iff hty).2 fun r hr => h.mentioned hty hr
  · rintro ⟨hp, he⟩
    refine ⟨fun p => checkPrimitive_eq_ok_iff.1 (hp p (by cases p <;> decide)), ?_⟩
    intro id ty r hty hr
    have hid : id ∈ t.ids := mem_ids.2 (by rw [hty]; rfl)
    exact (checkEntry_eq_ok_iff hty).1 (he id hid) r hr

/-! ### One more type -/

/-- The table with one more type. -/
def push (t : TypeTable) (ty : Ty) : TypeTable := ⟨t.entries.push ty⟩

section

variable {t : TypeTable} {ty : Ty} {id : TypeId}

theorem get?_push : (t.push ty).get? id = if id.index = t.size then some ty else t.get? id :=
  Array.getElem?_push

theorem get?_push_size : (t.push ty).get? ⟨t.size⟩ = some ty := by rw [get?_push, if_pos rfl]

theorem index_ne_size (h : t.contains id = true) : id.index ≠ t.size := by
  have hlt : id.index < t.size := of_decide_eq_true h
  omega

theorem get?_push_of_contains (h : t.contains id = true) : (t.push ty).get? id = t.get? id := by
  rw [get?_push, if_neg (index_ne_size h)]

theorem contains_push (h : t.contains id = true) : (t.push ty).contains id = true := by
  obtain ⟨ty', hty'⟩ := contains_iff.1 h
  exact contains_iff.2 ⟨ty', by rw [get?_push_of_contains h, hty']⟩

theorem WellFormed.push (h : t.WellFormed) (hty : ∀ r, ty.Mentions r → t.contains r = true) :
    (t.push ty).WellFormed := by
  constructor
  · intro p
    rw [get?_push_of_contains (contains_iff.2 ⟨_, h.primitive p⟩), h.primitive]
  · intro id ty' r hty' hr
    rw [get?_push] at hty'
    split at hty'
    · cases hty'
      exact contains_push (hty r hr)
    · exact contains_push (h.mentioned hty' hr)

end

end TypeTable

/-! ## Programs -/

theorem Tree.mem_ids {t : Tree} {id : NodeId} : id ∈ t.ids ↔ ∃ node, t.get? id = some node := by
  cases id
  rw [← Option.isSome_iff_exists]
  simp [ids, get?, size]

theorem Tree.index_lt_size {t : Tree} {id : NodeId} {node : Node} (h : t.get? id = some node) :
    id.index < t.size :=
  (Array.getElem?_eq_some_iff.1 h).1

theorem Tree.checkChild_eq_ok_iff {t : Tree} {id child : NodeId} :
    t.checkChild id child = .ok () ↔ child.index < t.size ∧ child.index < id.index := by
  rw [checkChild, bind_eq_ok_iff, require_eq_ok_iff, require_eq_ok_iff, decide_eq_true_iff,
    decide_eq_true_iff]

namespace Program

/-- The table is well-formed, the root is a node, parts come before the whole, and the types of
nodes are in the table. -/
structure Valid (p : Program) : Prop where
  types : p.types.WellFormed
  root : p.tree.root.index < p.tree.size
  child : ∀ {id : NodeId} {node : Node} {n : NodeId}, p.tree.get? id = some node →
    node.kind.Mentions n → n.index < id.index
  type : ∀ {id : NodeId} {node : Node} {r : TypeId}, p.tree.get? id = some node →
    node.type = some r → p.types.contains r = true
  contextualType : ∀ {id : NodeId} {node : Node} {r : TypeId}, p.tree.get? id = some node →
    node.contextualType = some r → p.types.contains r = true

theorem checkNode_eq_ok_iff {p : Program} {id : NodeId} {node : Node} (h : id.index < p.tree.size) :
    p.checkNode id node = .ok () ↔ (∀ n, node.kind.Mentions n → n.index < id.index) ∧
      (∀ r, node.type = some r → p.types.contains r = true) ∧
      ∀ r, node.contextualType = some r → p.types.contains r = true := by
  rw [checkNode, bind_eq_ok_iff, forM_eq_ok_iff, forM_eq_ok_iff]
  simp only [Tree.checkChild_eq_ok_iff, NodeKind.mem_children_iff, require_eq_ok_iff,
    List.mem_append, Option.mem_toList, or_imp, forall_and]
  refine and_congr ⟨fun hn => hn.2, fun hn => ⟨fun n hm => ?_, hn⟩⟩ Iff.rfl
  exact Nat.lt_trans (hn n hm) h

/-- **A program passes exactly if it is valid.** -/
theorem validate_eq_ok_iff {p : Program} : p.validate = .ok () ↔ p.Valid := by
  rw [validate, bind_eq_ok_iff, bind_eq_ok_iff, bind_eq_ok_iff, forM_eq_ok_iff (l := p.tree.ids),
    ← and_assoc, ← TypeTable.wellFormed_iff, Tree.checkRoot, require_eq_ok_iff, decide_eq_true_iff]
  constructor
  · rintro ⟨ht, hr, hn⟩
    have hc : ∀ {id : NodeId} {node : Node}, p.tree.get? id = some node →
        p.checkNode id node = .ok () := by
      intro id node h
      have hid := hn id (Tree.mem_ids.2 ⟨node, h⟩)
      rw [h, forM_eq_ok_iff] at hid
      exact hid node (by simp)
    refine ⟨ht, hr, fun h => ?_, fun h => ?_, fun h => ?_⟩
    · exact ((checkNode_eq_ok_iff (Tree.index_lt_size h)).1 (hc h)).1 _
    · exact ((checkNode_eq_ok_iff (Tree.index_lt_size h)).1 (hc h)).2.1 _
    · exact ((checkNode_eq_ok_iff (Tree.index_lt_size h)).1 (hc h)).2.2 _
  · intro hv
    refine ⟨hv.types, hv.root, fun id hid => ?_⟩
    obtain ⟨node, h⟩ := Tree.mem_ids.1 hid
    rw [h, forM_eq_ok_iff]
    intro node' hn
    obtain rfl : node' = node := by simpa using hn
    exact (checkNode_eq_ok_iff (Tree.index_lt_size h)).2
      ⟨fun _ => hv.child h, fun _ => hv.type h, fun _ => hv.contextualType h⟩

end Program

end ResultLint
