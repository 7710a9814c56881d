import ResultLint.Builder
import ResultLint.Proofs.Validity

/-!
# What calls build

A program is built by calls: some make types, some add a node, some set the type, the contextual
type or the span of a node.  A session keeps the builder and the nodes that were returned so far.
It allows a call if the nodes that are passed were returned before and the types that are passed
are in the table.

`Makes` and `Builds` list the calls that make a type and those that add a node, with what is passed
and what is added.  All else is said of sessions in general.

* `Session.Sound`: the table is well-formed, parts come before the whole and types are in the table.
* `Session.Sound.call`: an allowed call keeps a session sound.
* `Session.get?_calls`: a node changes only by the calls that set something of it.
* `finish_calls`: **allowed calls build a valid program, with its root last and every node as it was
  built and last set.**
-/

namespace ResultLint

/-! ## Making types -/

namespace TypeTable

theorem wellFormed_primitives : primitives.WellFormed := by
  constructor
  · intro p
    cases p <;> rfl
  · intro id ty r hty hr
    have hmem : ty ∈ Primitive.all.map Ty.primitive :=
      List.mem_of_getElem? (by simpa [get?, primitives] using hty)
    obtain ⟨p, -, rfl⟩ := List.mem_map.1 hmem
    cases hr

theorem intern_cases (t : TypeTable) (ty : Ty) :
    (∃ id, t.get? id = some ty ∧ t.intern ty = (id, t)) ∨ t.intern ty = (⟨t.size⟩, t.push ty) := by
  rw [intern]
  cases h : t.idOf? ty with
  | none => exact .inr rfl
  | some id =>
    have hfound := List.find?_some (p := fun id => decide (t.get? id = some ty)) h
    exact .inl ⟨id, of_decide_eq_true hfound, rfl⟩

end TypeTable

theorem Build.nodes_type (make : TypeTable → TypeId × TypeTable) (b : Builder) :
    (Build.type make b).2.nodes = b.nodes := rfl

/-- One step after another. -/
theorem Build.bind_run {α β : Type} (x : Build α) (f : α → Build β) (b : Builder) :
    (x >>= f) b = f (x b).1 (x b).2 := rfl

namespace Builder

variable {b : Builder}

/-- Afterwards the table is well-formed, still has its types, and has the type that was made. -/
structure Learns (b : Builder) (step : TypeId × Builder) : Prop where
  wellFormed : step.2.types.WellFormed
  kept : ∀ {r : TypeId}, b.types.contains r = true → step.2.types.contains r = true
  known : step.2.types.contains step.1 = true

theorem learns_known (h : b.types.WellFormed) {id : TypeId} (hid : b.types.contains id = true) :
    b.Learns (id, b) :=
  ⟨h, fun hr => hr, hid⟩

theorem learns_intern (h : b.types.WellFormed) {ty : Ty}
    (hty : ∀ r ∈ ty.references, b.types.contains r = true) :
    b.Learns (Build.type (·.intern ty) b) := by
  rcases b.types.intern_cases ty with ⟨id, hid, he⟩ | he
  · have hrun : Build.type (·.intern ty) b = (id, b) := by rw [Build.type, he]
    rw [hrun]
    exact learns_known h (TypeTable.contains_iff.2 ⟨ty, hid⟩)
  · have hrun : Build.type (·.intern ty) b =
        (⟨b.types.size⟩, { b with types := b.types.push ty }) := by
      rw [Build.type, he]
    rw [hrun]
    exact ⟨h.push fun r hr => hty r (Ty.mem_references_iff.2 hr), TypeTable.contains_push,
      TypeTable.contains_iff.2 ⟨ty, TypeTable.get?_push_size⟩⟩

theorem Learns.trans {step next : TypeId × Builder} (h : b.Learns step)
    (hnext : step.2.Learns next) : b.Learns next :=
  ⟨hnext.wellFormed, fun hr => hnext.kept (h.kept hr), hnext.known⟩

theorem learns_resultCase (h : b.types.WellFormed) (shape : ResultShape) (marker : String)
    {payload : TypeId} (hp : b.types.contains payload = true) :
    b.Learns (Build.resultCase shape marker payload b) := by
  rw [Build.resultCase, Build.bind_run]
  have htag : b.Learns (Build.type (·.stringLiteral marker) b) :=
    learns_intern h (by simp [Ty.references])
  generalize Build.type (·.stringLiteral marker) b = step at htag ⊢
  refine htag.trans (learns_intern htag.wellFormed ?_)
  intro r hr
  have hr' : r = step.1 ∨ r = payload := by
    simpa [Ty.references, ObjectType.references] using hr
  rcases hr' with rfl | rfl
  · exact htag.known
  · exact htag.kept hp

theorem learns_union (h : b.types.WellFormed) {members : List TypeId}
    (hm : ∀ m ∈ members, b.types.contains m = true) :
    b.Learns (Build.type (·.union members) b) := by
  cases members with
  | nil => exact learns_intern h hm
  | cons member members =>
    cases members with
    | nil => exact learns_known h (hm member (List.mem_singleton_self member))
    | cons _ _ => exact learns_intern h hm

end Builder

/-- The calls that make a type, each with the types that are passed. -/
inductive Makes : Build TypeId → List TypeId → Prop
  | intern (ty : Ty) : Makes (Build.type (·.intern ty)) ty.references
  | stringLiteral (s : String) : Makes (Build.type (·.stringLiteral s)) []
  | numberLiteral (x : Binary64) : Makes (Build.type (·.numberLiteral x)) []
  | booleanLiteral (b : Bool) : Makes (Build.type (·.booleanLiteral b)) []
  | object (o : ObjectType) : Makes (Build.type (·.object o)) o.references
  | union (members : List TypeId) : Makes (Build.type (·.union members)) members
  | array (element : TypeId) : Makes (Build.type (·.array element)) [element]
  | tuple (elements : List TypeId) : Makes (Build.type (·.tuple elements)) elements
  | function (params : List Parameter) (returnType : TypeId) :
      Makes (Build.type (·.function params returnType)) (params.map (·.type) ++ [returnType])
  | overloaded (signatures : List Signature) :
      Makes (Build.type (·.overloaded signatures)) (signatures.flatMap (·.references))
  | parameter (name : String) (constraint : Option TypeId) :
      Makes (Build.type (·.parameter name constraint)) constraint.toList
  | resultCase (shape : ResultShape) (marker : String) (payload : TypeId) :
      Makes (Build.resultCase shape marker payload) [payload]
  | resultType (shape : ResultShape) (success failure : TypeId) :
      Makes (Build.resultType shape success failure) [success, failure]

theorem Makes.nodes_eq {action : Build TypeId} {passed : List TypeId} (h : Makes action passed)
    (b : Builder) : (action b).2.nodes = b.nodes := by
  cases h <;> simp only [Build.resultCase, Build.resultType, Build.bind_run, Build.nodes_type]

/-- A call that makes a type only adds to the table. -/
theorem Makes.learns {action : Build TypeId} {passed : List TypeId} (h : Makes action passed)
    {b : Builder} (hb : b.types.WellFormed) (hp : ∀ r ∈ passed, b.types.contains r = true) :
    b.Learns (action b) := by
  cases h with
  | intern ty => exact Builder.learns_intern hb hp
  | stringLiteral s => exact Builder.learns_intern hb (by simp [Ty.references])
  | numberLiteral x => exact Builder.learns_intern hb (by simp [Ty.references])
  | booleanLiteral v => exact Builder.learns_intern hb (by simp [Ty.references])
  | object o => exact Builder.learns_intern hb hp
  | union members => exact Builder.learns_union hb hp
  | array element => exact Builder.learns_intern hb hp
  | tuple elements => exact Builder.learns_intern hb hp
  | function params returnType =>
    exact Builder.learns_intern hb
      (by simpa [Ty.references, ObjectType.references, Signature.references] using hp)
  | overloaded signatures =>
    exact Builder.learns_intern hb (by simpa [Ty.references, ObjectType.references] using hp)
  | parameter name constraint => exact Builder.learns_intern hb hp
  | resultCase shape marker payload =>
    exact Builder.learns_resultCase hb shape marker (hp payload (by simp))
  | resultType shape success failure =>
    rw [Build.resultType, Build.bind_run, Build.bind_run]
    have hok := Builder.learns_resultCase hb shape shape.success (hp success (by simp))
    generalize Build.resultCase shape shape.success success b = ok at hok ⊢
    have herr := Builder.learns_resultCase hok.wellFormed shape shape.failure
      (hok.kept (hp failure (by simp)))
    generalize Build.resultCase shape shape.failure failure ok.2 = err at herr ⊢
    refine (hok.trans herr).trans (Builder.learns_union herr.wellFormed ?_)
    simpa using ⟨herr.kept hok.known, herr.known⟩

/-! ## Adding nodes -/

/-- Where the type of a new node comes from. -/
inductive Given
  | passed (type : Option TypeId)
  | primitive (p : Primitive)
  | ofNode (n : NodeId)
  | ofLiteral (l : LiteralType)

namespace Given

/-- The types that are passed. -/
def types : Given → List TypeId
  | passed type => type.toList
  | _ => []

/-- The type, and the builder that has it. -/
def settle (b : Builder) : Given → Option TypeId × Builder
  | passed type => (type, b)
  | primitive p => (some p.id, b)
  | ofNode n => (some (b.typeOf n), b)
  | ofLiteral l =>
    let (id, b) := Build.type (·.intern (.literal l)) b
    (some id, b)

end Given

/-- The calls that add a node, each with the kind of the node and where its type comes from.  The
nodes that are passed are the parts of the new node. -/
inductive Builds : Build NodeId → NodeKind → Given → Prop
  | node (kind : NodeKind) (type : Option TypeId) :
      Builds (Build.node kind type) kind (.passed type)
  | identifier (name : String) (type : TypeId) :
      Builds (Build.identifier name type) (.identifier name) (.passed type)
  | literal (value : LiteralValue) (type : TypeId) :
      Builds (Build.literal value type) (.literal value) (.passed type)
  | string (s : String) : Builds (Build.string s) (.literal (.string s)) (.ofLiteral (.string s))
  | number (x : Binary64) :
      Builds (Build.number x) (.literal (.number x)) (.ofLiteral (.number x.plainText))
  | boolean (b : Bool) :
      Builds (Build.boolean b) (.literal (.boolean b)) (.ofLiteral (.boolean b))
  | call (callee : NodeId) (arguments : List NodeId) (type : TypeId) :
      Builds (Build.call callee arguments type) (.call callee arguments false) (.passed type)
  | optionalCall (callee : NodeId) (arguments : List NodeId) (type : TypeId) :
      Builds (Build.optionalCall callee arguments type) (.call callee arguments true) (.passed type)
  | construct (callee : NodeId) (arguments : Option (List NodeId)) (type : TypeId) :
      Builds (Build.construct callee arguments type) (.construct callee arguments) (.passed type)
  | member (object : NodeId) (name : String) (type : TypeId) :
      Builds (Build.member object name type) (.member object (.name name) false) (.passed type)
  | optionalMember (object : NodeId) (name : String) (type : TypeId) :
      Builds (Build.optionalMember object name type) (.member object (.name name) true)
        (.passed type)
  | computedMember (object key : NodeId) (type : TypeId) :
      Builds (Build.computedMember object key type) (.member object (.computed key) false)
        (.passed type)
  | chain (expression : NodeId) :
      Builds (Build.chain expression) (.chain expression) (.ofNode expression)
  | emptySequence : Builds (Build.sequence []) (.sequence []) (.primitive .undefined)
  | sequence (items : List NodeId) (last : NodeId) :
      Builds (Build.sequence (items ++ [last])) (.sequence (items ++ [last])) (.ofNode last)
  | unary (operator : UnaryOp) (argument : NodeId) (type : TypeId) :
      Builds (Build.unary operator argument type) (.unary operator argument) (.passed type)
  | void (argument : NodeId) :
      Builds (Build.void argument) (.unary .void argument) (.primitive .undefined)
  | not (argument : NodeId) :
      Builds (Build.not argument) (.unary .not argument) (.primitive .boolean)
  | binary (operator : String) (left right : NodeId) (type : TypeId) :
      Builds (Build.binary operator left right type) (.binary operator left right) (.passed type)
  | logical (operator : LogicalOp) (left right : NodeId) (type : TypeId) :
      Builds (Build.logical operator left right type) (.logical operator left right) (.passed type)
  | conditional (test consequent alternate : NodeId) (type : TypeId) :
      Builds (Build.conditional test consequent alternate type)
        (.conditional test consequent alternate) (.passed type)
  | assign (left right : NodeId) :
      Builds (Build.assign left right) (.assignment "=" left right) (.ofNode right)
  | object (properties : List NodeId) (type : TypeId) :
      Builds (Build.object properties type) (.objectLiteral properties) (.passed type)
  | property (name : String) (value : NodeId) :
      Builds (Build.property name value) (.property (.name name) value .init) (.passed none)
  | computedProperty (key value : NodeId) (form : PropertyForm) :
      Builds (Build.computedProperty key value form) (.property (.computed key) value form)
        (.passed none)
  | shorthand (name : String) (value : NodeId) :
      Builds (Build.shorthand name value) (.property (.name name) value .shorthand) (.passed none)
  | method (name : String) (function : NodeId) :
      Builds (Build.method name function) (.property (.name name) function .method)
        (.ofNode function)
  | array (elements : List NodeId) (type : TypeId) :
      Builds (Build.array elements type) (.arrayLiteral elements) (.passed type)
  | spread (argument : NodeId) :
      Builds (Build.spread argument) (.spread argument) (.ofNode argument)
  | arrow (params : List NodeId) (body : NodeId) (type : TypeId) :
      Builds (Build.arrow params body type) (.function .arrow none params body) (.passed type)
  | functionExpression (params : List NodeId) (body : NodeId) (type : TypeId) :
      Builds (Build.functionExpression params body type) (.function .expression none params body)
        (.passed type)
  | element (name : String) (attributes children : List NodeId) :
      Builds (Build.element name attributes children) (.element name attributes children)
        (.passed none)
  | elementAttribute (name : String) (value : Option NodeId) :
      Builds (Build.elementAttribute name value) (.elementAttribute name value) (.passed none)
  | expressionStatement (expression : NodeId) :
      Builds (Build.expressionStatement expression) (.expressionStatement expression) (.passed none)
  | block (body : List NodeId) : Builds (Build.block body) (.block body) (.passed none)
  | ifElse (test consequent : NodeId) (alternate : Option NodeId) :
      Builds (Build.ifElse test consequent alternate) (.ifElse test consequent alternate)
        (.passed none)
  | whileLoop (test body : NodeId) :
      Builds (Build.whileLoop test body) (.whileLoop test body) (.passed none)
  | doWhileLoop (body test : NodeId) :
      Builds (Build.doWhileLoop body test) (.doWhileLoop body test) (.passed none)
  | forLoop (init test update : Option NodeId) (body : NodeId) :
      Builds (Build.forLoop init test update body) (.forLoop init test update body) (.passed none)
  | returnStatement (argument : Option NodeId) :
      Builds (Build.returnStatement argument) (.returnStatement argument) (.passed none)
  | variableDeclaration (declarators : List NodeId) :
      Builds (Build.variableDeclaration declarators) (.variableDeclaration declarators)
        (.passed none)
  | declarator (target : NodeId) (init : Option NodeId) :
      Builds (Build.declarator target init) (.variableDeclarator target init) (.ofNode target)
  | functionDeclaration (name : String) (params : List NodeId) (body : NodeId) (type : TypeId) :
      Builds (Build.functionDeclaration name params body type)
        (.function .declaration name params body) (.passed type)
  | classDeclaration (name : String) (heritage members : List NodeId) (type : TypeId) :
      Builds (Build.classDeclaration name heritage members type)
        (.classDeclaration name heritage members) (.passed type)
  | interfaceDeclaration (name : String) (heritage members : List NodeId) (type : TypeId) :
      Builds (Build.interfaceDeclaration name heritage members type)
        (.interfaceDeclaration name heritage members) (.passed type)
  | classMember (key : Key) (form : MemberForm) (value : Option NodeId) (isStatic : Bool)
      (type : TypeId) :
      Builds (Build.classMember key form value isStatic type) (.classMember key form value isStatic)
        (.passed type)
  | methodMember (name : String) (function : NodeId) :
      Builds (Build.methodMember name function)
        (.classMember (.name name) .method (some function) false) (.ofNode function)
  | signatureMember (name : String) (type : TypeId) :
      Builds (Build.signatureMember name type) (.classMember (.name name) .signature none false)
        (.passed type)

theorem Builds.run_eq {action : Build NodeId} {kind : NodeKind} {given : Given}
    (h : Builds action kind given) (b : Builder) :
    action b = (given.settle b).2.addNode kind (given.settle b).1 := by
  cases h with
  | number x =>
    -- the text of a number is not to be computed here
    simp only [Build.number, TypeTable.numberLiteral]
    generalize x.plainText = text
    rfl
  | sequence items last => rw [Build.sequence, List.getLast?_concat]; rfl
  | _ => rfl

/-! ## Sound builders -/

namespace Builder

variable {b : Builder}

/-- The table is well-formed, parts come before the whole, and the types of nodes are in the
table. -/
structure Sound (b : Builder) : Prop where
  types : b.types.WellFormed
  child : ∀ {id : NodeId} {node : Node} {n : NodeId}, b.get? id = some node →
    node.kind.Mentions n → n.index < id.index
  type : ∀ {id : NodeId} {node : Node} {r : TypeId}, b.get? id = some node →
    node.type = some r → b.types.contains r = true
  contextualType : ∀ {id : NodeId} {node : Node} {r : TypeId}, b.get? id = some node →
    node.contextualType = some r → b.types.contains r = true

theorem sound_new : ({} : Builder).Sound := by
  have hget : ∀ {id : NodeId} {node : Node}, ({} : Builder).get? id ≠ some node := by
    simp [get?]
  exact ⟨TypeTable.wellFormed_primitives, fun h => absurd h hget, fun h => absurd h hget,
    fun h => absurd h hget⟩

theorem get?_addNode (b : Builder) (kind : NodeKind) (type : Option TypeId) (n : NodeId) :
    (b.addNode kind type).2.get? n =
      if n.index = b.nodes.size then some { kind, type } else b.get? n :=
  Array.getElem?_push

theorem get?_changeNode (b : Builder) (id : NodeId) (f : Node → Node) (n : NodeId) :
    (b.changeNode id f).get? n = if id = n then (b.get? n).map f else b.get? n := by
  obtain ⟨i⟩ := id
  obtain ⟨k⟩ := n
  simp only [get?, changeNode, Array.getElem?_modify, NodeId.mk.injEq]

/-- More types do no harm. -/
theorem Sound.learn (h : b.Sound) {step : TypeId × Builder} (hstep : b.Learns step)
    (hnodes : step.2.nodes = b.nodes) : step.2.Sound := by
  have hget : ∀ {id : NodeId}, step.2.get? id = b.get? id := by
    intro id
    rw [get?, get?, hnodes]
  refine ⟨hstep.wellFormed, fun hid => ?_, fun hid hr => ?_, fun hid hr => ?_⟩
  · exact h.child (hget ▸ hid)
  · exact hstep.kept (h.type (hget ▸ hid) hr)
  · exact hstep.kept (h.contextualType (hget ▸ hid) hr)

theorem Sound.addNode (h : b.Sound) {kind : NodeKind} {type : Option TypeId}
    (hkind : ∀ n ∈ kind.children, n.index < b.nodes.size)
    (htype : ∀ r, type = some r → b.types.contains r = true) : (b.addNode kind type).2.Sound := by
  have hcases : ∀ {id : NodeId} {node : Node}, (b.addNode kind type).2.get? id = some node →
      id.index = b.nodes.size ∧ node = { kind, type } ∨ b.get? id = some node := by
    intro id node hid
    rw [get?_addNode] at hid
    split at hid
    next he => exact .inl ⟨he, (Option.some.inj hid).symm⟩
    next => exact .inr hid
  refine ⟨h.types, ?_, ?_, ?_⟩
  · intro id node n hid hn
    rcases hcases hid with ⟨he, rfl⟩ | hid
    · rw [he]
      exact hkind n (NodeKind.mem_children_iff.2 hn)
    · exact h.child hid hn
  · intro id node r hid hr
    rcases hcases hid with ⟨_, rfl⟩ | hid
    · exact htype r hr
    · exact h.type hid hr
  · intro id node r hid hr
    rcases hcases hid with ⟨_, rfl⟩ | hid
    · cases hr
    · exact h.contextualType hid hr

theorem Sound.changeNode (h : b.Sound) (id : NodeId) {f : Node → Node}
    (hkind : ∀ node, (f node).kind = node.kind)
    (htype : ∀ node r, (f node).type = some r → node.type = some r ∨ b.types.contains r = true)
    (hcontext : ∀ node r, (f node).contextualType = some r →
      node.contextualType = some r ∨ b.types.contains r = true) : (b.changeNode id f).Sound := by
  have hcases : ∀ {n : NodeId} {node : Node}, (b.changeNode id f).get? n = some node →
      ∃ old, b.get? n = some old ∧ (node = f old ∨ node = old) := by
    intro n node hn
    rw [get?_changeNode] at hn
    split at hn
    · obtain ⟨old, hold, rfl⟩ := Option.map_eq_some_iff.1 hn
      exact ⟨old, hold, .inl rfl⟩
    · exact ⟨node, hn, .inr rfl⟩
  refine ⟨h.types, ?_, ?_, ?_⟩
  · intro n node m hn hm
    obtain ⟨old, hold, rfl | rfl⟩ := hcases hn
    · exact h.child hold (hkind old ▸ hm)
    · exact h.child hold hm
  · intro n node r hn hr
    obtain ⟨old, hold, rfl | rfl⟩ := hcases hn
    · exact (htype old r hr).elim (h.type hold) fun hc => hc
    · exact h.type hold hr
  · intro n node r hn hr
    obtain ⟨old, hold, rfl | rfl⟩ := hcases hn
    · exact (hcontext old r hr).elim (h.contextualType hold) fun hc => hc
    · exact h.contextualType hold hr

theorem Sound.contains_typeOf (h : b.Sound) (n : NodeId) :
    b.types.contains (b.typeOf n) = true := by
  rw [typeOf]
  cases ht : (b.get? n).bind (·.type) with
  | none => exact TypeTable.contains_iff.2 ⟨_, h.types.primitive .unknown⟩
  | some r =>
    obtain ⟨node, hnode, hr⟩ := Option.bind_eq_some_iff.1 ht
    exact h.type hnode hr

theorem nodes_settle (b : Builder) (given : Given) : (given.settle b).2.nodes = b.nodes := by
  cases given <;> rfl

/-- The type of a new node is in the table. -/
theorem Sound.settle (h : b.Sound) {given : Given}
    (hg : ∀ r ∈ given.types, b.types.contains r = true) :
    (given.settle b).2.Sound ∧
      ∀ r, (given.settle b).1 = some r → (given.settle b).2.types.contains r = true := by
  cases given with
  | passed type => exact ⟨h, fun r hr => hg r (Option.mem_toList.2 hr)⟩
  | primitive p =>
    refine ⟨h, fun r hr => ?_⟩
    rw [← Option.some.inj hr]
    exact TypeTable.contains_iff.2 ⟨_, h.types.primitive p⟩
  | ofNode n =>
    refine ⟨h, fun r hr => ?_⟩
    rw [← Option.some.inj hr]
    exact h.contains_typeOf n
  | ofLiteral l =>
    have hl : b.Learns (Build.type (·.intern (.literal l)) b) :=
      learns_intern h.types (by simp [Ty.references])
    refine ⟨h.learn hl rfl, fun r hr => ?_⟩
    rw [← Option.some.inj hr]
    exact hl.known

theorem Sound.valid (h : b.Sound) {root : NodeId} (hroot : root.index < b.nodes.size) :
    (⟨b.types, ⟨b.nodes, root⟩⟩ : Program).Valid :=
  ⟨h.types, hroot, h.child, h.type, h.contextualType⟩

end Builder

/-! ## Sessions -/

/-- A call of a builder. -/
inductive Call
  | make (action : Build TypeId) (passed : List TypeId) (h : Makes action passed)
  | build (action : Build NodeId) (kind : NodeKind) (given : Given) (h : Builds action kind given)
  | typeOf (id : NodeId)
  | setType (id : NodeId) (type : TypeId)
  | setContextualType (id : NodeId) (type : TypeId)
  | setSpan (id : NodeId) (span : Span)
  | atLine (id : NodeId) (line : Nat)

namespace Call

/-- The nodes that are passed. -/
def nodes : Call → List NodeId
  | make _ _ _ => []
  | build _ kind _ _ => kind.children
  | typeOf id => [id]
  | setType id _ => [id]
  | setContextualType id _ => [id]
  | setSpan id _ => [id]
  | atLine id _ => [id]

/-- The types that are passed. -/
def types : Call → List TypeId
  | make _ passed _ => passed
  | build _ _ given _ => given.types
  | setType _ type => [type]
  | setContextualType _ type => [type]
  | _ => []

/-- The builder after the call. -/
def run (b : Builder) : Call → Builder
  | make action _ _ => (action b).2
  | build action _ _ _ => (action b).2
  | typeOf id => (Build.typeOf id b).2
  | setType id type => (Build.setType id type b).2
  | setContextualType id type => (Build.setContextualType id type b).2
  | setSpan id span => (Build.setSpan id span b).2
  | atLine id line => (Build.atLine id line b).2

/-- The node that is returned, if one is. -/
def returned? (b : Builder) : Call → Option NodeId
  | build action _ _ _ => some (action b).1
  | atLine id line => some (Build.atLine id line b).1
  | _ => none

/-- The type that the call sets for a node. -/
def typeFor? (n : NodeId) : Call → Option TypeId
  | setType id type => if id = n then some type else none
  | _ => none

/-- The contextual type that the call sets for a node. -/
def contextualTypeFor? (n : NodeId) : Call → Option TypeId
  | setContextualType id type => if id = n then some type else none
  | _ => none

/-- The span of a node after the call.  To move a node to a line keeps where it starts. -/
def spanFor (n : NodeId) (span : Span) : Call → Span
  | setSpan id new => if id = n then new else span
  | atLine id line => if id = n then ⟨span.start, span.start, line, 1⟩ else span
  | _ => span

end Call

/-- The type last set for a node. -/
def lastType (n : NodeId) (calls : List Call) : Option TypeId :=
  calls.reverse.findSome? (·.typeFor? n)

/-- The contextual type last set for a node. -/
def lastContextualType (n : NodeId) (calls : List Call) : Option TypeId :=
  calls.reverse.findSome? (·.contextualTypeFor? n)

/-- The span last set for a node that had the given one. -/
def lastSpan (n : NodeId) (span : Span) (calls : List Call) : Span :=
  calls.foldl (fun span c => c.spanFor n span) span

/-- The builder and the nodes that were returned so far. -/
structure Session where
  builder : Builder := {}
  returned : List NodeId := []

namespace Session

def call (s : Session) (c : Call) : Session :=
  ⟨c.run s.builder, s.returned ++ (c.returned? s.builder).toList⟩

def calls (s : Session) (cs : List Call) : Session := cs.foldl call s

/-- Nodes that are passed were returned before, and types that are passed are in the table. -/
def Allows (s : Session) (c : Call) : Prop :=
  (∀ n ∈ c.nodes, n ∈ s.returned) ∧ ∀ r ∈ c.types, s.builder.types.contains r = true

instance (s : Session) (c : Call) : Decidable (s.Allows c) :=
  inferInstanceAs (Decidable (_ ∧ _))

/-- Each call is allowed when it comes. -/
def AllowsAll : Session → List Call → Prop
  | _, [] => True
  | s, c :: cs => s.Allows c ∧ AllowsAll (s.call c) cs

instance decidableAllowsAll : (s : Session) → (cs : List Call) → Decidable (s.AllowsAll cs)
  | _, [] => inferInstanceAs (Decidable True)
  | s, c :: cs =>
    have := decidableAllowsAll (s.call c) cs
    inferInstanceAs (Decidable (s.Allows c ∧ AllowsAll (s.call c) cs))

/-! ### One call and many -/

variable {s : Session} {c : Call} {cs : List Call} {n : NodeId}

theorem builder_call_build {action : Build NodeId} {kind : NodeKind} {given : Given}
    (h : Builds action kind given) :
    (s.call (.build action kind given h)).builder =
      ((given.settle s.builder).2.addNode kind (given.settle s.builder).1).2 := by
  rw [call, Call.run, h.run_eq]

theorem returned_build {action : Build NodeId} {kind : NodeKind} {given : Given}
    (h : Builds action kind given) (b : Builder) : (action b).1 = ⟨b.nodes.size⟩ := by
  rw [h.run_eq, Builder.addNode, Builder.nodes_settle]

/-- The builder is sound and has the nodes that were returned. -/
structure Sound (s : Session) : Prop where
  builder : s.builder.Sound
  returned : ∀ n ∈ s.returned, n.index < s.builder.nodes.size

/-- Only a call that adds a node changes their number. -/
theorem size_call (s : Session) (c : Call) :
    (∃ action kind given h, c = .build action kind given h ∧
      (s.call c).builder.nodes.size = s.builder.nodes.size + 1) ∨
    (s.call c).builder.nodes.size = s.builder.nodes.size := by
  cases c with
  | make action passed h => exact .inr (by rw [call, Call.run, h.nodes_eq])
  | build action kind given h =>
    refine .inl ⟨action, kind, given, h, rfl, ?_⟩
    rw [builder_call_build, Builder.addNode, Builder.nodes_settle, Array.size_push]
  | typeOf id => exact .inr rfl
  | setType id type => exact .inr Array.size_modify
  | setContextualType id type => exact .inr Array.size_modify
  | setSpan id span => exact .inr Array.size_modify
  | atLine id line => exact .inr Array.size_modify

theorem size_le_size_call (s : Session) (c : Call) :
    s.builder.nodes.size ≤ (s.call c).builder.nodes.size := by
  rcases s.size_call c with ⟨_, _, _, _, _, h⟩ | h <;> omega

/-- **An allowed call keeps a session sound.** -/
theorem Sound.call (h : s.Sound) (hc : s.Allows c) : (s.call c).Sound := by
  obtain ⟨hnodes, htypes⟩ := hc
  have hpassed : ∀ n ∈ c.nodes, n.index < s.builder.nodes.size :=
    fun n hn => h.returned n (hnodes n hn)
  constructor
  · cases c with
    | make action passed hm =>
      exact h.builder.learn (hm.learns h.builder.types htypes) (hm.nodes_eq _)
    | build action kind given hb =>
      rw [builder_call_build]
      obtain ⟨hsettled, htype⟩ := h.builder.settle htypes
      refine hsettled.addNode ?_ htype
      rw [Builder.nodes_settle]
      exact hpassed
    | typeOf id => exact h.builder
    | setType id type =>
      refine h.builder.changeNode id (fun _ => rfl) (fun _ r hr => .inr ?_) fun _ _ hr => .inl hr
      exact htypes r (by rw [← Option.some.inj hr]; exact List.mem_singleton_self type)
    | setContextualType id type =>
      refine h.builder.changeNode id (fun _ => rfl) (fun _ _ hr => .inl hr) fun _ r hr => .inr ?_
      exact htypes r (by rw [← Option.some.inj hr]; exact List.mem_singleton_self type)
    | setSpan id span =>
      exact h.builder.changeNode id (fun _ => rfl) (fun _ _ hr => .inl hr) fun _ _ hr => .inl hr
    | atLine id line =>
      exact h.builder.changeNode id (fun _ => rfl) (fun _ _ hr => .inl hr) fun _ _ hr => .inl hr
  · intro n hn
    rcases List.mem_append.1 hn with hn | hn
    · exact Nat.lt_of_lt_of_le (h.returned n hn) (s.size_le_size_call c)
    · cases c with
      | build action kind given hb =>
        obtain rfl : n = (action s.builder).1 := List.mem_singleton.1 hn
        rw [returned_build hb, builder_call_build, Builder.addNode, Builder.nodes_settle,
          Array.size_push]
        exact Nat.lt_succ_self _
      | atLine id line =>
        obtain rfl : n = id := List.mem_singleton.1 hn
        exact Nat.lt_of_lt_of_le (hpassed n (List.mem_singleton_self n)) (s.size_le_size_call _)
      | _ => simp [Call.returned?] at hn

theorem Sound.calls (h : s.Sound) (hcs : s.AllowsAll cs) : (s.calls cs).Sound := by
  induction cs generalizing s with
  | nil => exact h
  | cons c cs ih => exact ih (h.call hcs.1) hcs.2

/-- A node after some calls: its kind stays, and of all else what is set last counts. -/
def settled (n : NodeId) (cs : List Call) (node : Node) : Node where
  kind := node.kind
  type := (lastType n cs).or node.type
  contextualType := (lastContextualType n cs).or node.contextualType
  span := lastSpan n node.span cs

theorem settled_cons (n : NodeId) (c : Call) (cs : List Call) (node : Node) :
    settled n (c :: cs) node = settled n cs (settled n [c] node) := by
  simp only [settled, lastType, lastContextualType, lastSpan, List.reverse_cons, List.reverse_nil,
    List.nil_append, List.findSome?_append, Option.or_assoc, List.foldl_cons, List.foldl_nil]

/-- A call changes a node only by what it sets. -/
theorem get?_call (c : Call) (hn : n.index < s.builder.nodes.size) :
    (s.call c).builder.get? n = (s.builder.get? n).map (settled n [c]) := by
  have hsame : ∀ {b : Builder}, b.get? n = s.builder.get? n → c.typeFor? n = none →
      c.contextualTypeFor? n = none → (∀ span, c.spanFor n span = span) →
      b.get? n = (s.builder.get? n).map (settled n [c]) := by
    intro b hb htype hcontext hspan
    have hid : settled n [c] = id := by
      funext node
      simp [settled, lastType, lastContextualType, lastSpan, htype, hcontext, hspan]
    rw [hb, hid, Option.map_id, id]
  have hchange : ∀ {id : NodeId} {f : Node → Node},
      (∀ node, (if id = n then f node else node) = settled n [c] node) →
      (s.builder.changeNode id f).get? n = (s.builder.get? n).map (settled n [c]) := by
    intro id f hf
    rw [Builder.get?_changeNode, ← funext hf]
    split
    · rfl
    · exact Option.map_id'.symm
  cases c with
  | make action passed h =>
    refine hsame ?_ rfl rfl fun _ => rfl
    rw [call, Call.run, Builder.get?, h.nodes_eq, Builder.get?]
  | build action kind given h =>
    refine hsame ?_ rfl rfl fun _ => rfl
    rw [builder_call_build, Builder.get?_addNode, Builder.nodes_settle, if_neg (Nat.ne_of_lt hn),
      Builder.get?, Builder.nodes_settle, Builder.get?]
  | typeOf id => exact hsame rfl rfl rfl fun _ => rfl
  | setType id _ | setContextualType id _ | setSpan id _ | atLine id _ =>
    refine hchange fun node => ?_
    by_cases h : id = n <;>
      simp [settled, lastType, lastContextualType, lastSpan, Call.typeFor?, Call.contextualTypeFor?,
        Call.spanFor, h]

/-- **A node changes only by the calls that set something of it, and the last of them counts.** -/
theorem get?_calls (cs : List Call) (hn : n.index < s.builder.nodes.size) :
    (s.calls cs).builder.get? n = (s.builder.get? n).map (settled n cs) := by
  induction cs generalizing s with
  | nil => exact (Option.map_id').symm
  | cons c cs ih =>
    have hstep := ih (Nat.lt_of_lt_of_le hn (s.size_le_size_call c))
    rw [get?_call c hn, Option.map_map] at hstep
    rw [funext (settled_cons n c cs)]
    exact hstep

/-- A node that a call has added is as the call and the later ones say. -/
theorem get?_of_build (s : Session) (before after : List Call) {action : Build NodeId}
    {kind : NodeKind} {given : Given} (h : Builds action kind given) :
    let b := (s.calls before).builder
    let n := (action b).1
    (s.calls (before ++ .build action kind given h :: after)).builder.get? n =
      some (settled n after { kind, type := (given.settle b).1 }) := by
  intro b n
  have hnew : ((s.calls before).call (.build action kind given h)).builder.get? n =
      some { kind, type := (given.settle b).1 } := by
    rw [builder_call_build, show n = ⟨b.nodes.size⟩ from returned_build h b, Builder.get?_addNode,
      Builder.nodes_settle, if_pos rfl]
  have hlater := get?_calls after (Array.getElem?_eq_some_iff.1 hnew).1
  rw [hnew] at hlater
  rw [calls, List.foldl_append]
  exact hlater

/-- Every new node was added by a call. -/
theorem exists_build (hn : n.index < (s.calls cs).builder.nodes.size)
    (hnew : s.builder.nodes.size ≤ n.index) :
    ∃ before action kind given h after, cs = before ++ .build action kind given h :: after ∧
      (action (s.calls before).builder).1 = n := by
  induction cs generalizing s with
  | nil => exact absurd hn (Nat.not_lt.2 hnew)
  | cons c cs ih =>
    by_cases hlater : (s.call c).builder.nodes.size ≤ n.index
    · obtain ⟨before, action, kind, given, h, after, rfl, hreturned⟩ := ih hn hlater
      exact ⟨c :: before, action, kind, given, h, after, rfl, hreturned⟩
    · rcases s.size_call c with ⟨action, kind, given, h, rfl, hsize⟩ | hsize
      · refine ⟨[], action, kind, given, h, cs, rfl, ?_⟩
        have hindex : s.builder.nodes.size = n.index := by omega
        exact (returned_build h s.builder).trans (congrArg NodeId.mk hindex)
      · omega

end Session

theorem Builder.get?_finish_of_get? {b : Builder} {n : NodeId} {node : Node}
    (h : b.get? n = some node) (body : List NodeId) : (b.finish body).tree.get? n = some node := by
  have hlt : n.index < b.nodes.size := (Array.getElem?_eq_some_iff.1 h).1
  exact (b.get?_addNode (.program body) none n).trans ((if_neg (Nat.ne_of_lt hlt)).trans h)

theorem Builder.size_finish (b : Builder) (body : List NodeId) :
    (b.finish body).tree.size = b.nodes.size + 1 :=
  Array.size_push _

/-- **Allowed calls build a valid program.  Its root is its last node and has the given body.  Every
other node was added by a call, and has the kind it was added with and the type, contextual type and
span last set for it.** -/
theorem finish_calls (cs : List Call) (body : List NodeId) (hcs : ({} : Session).AllowsAll cs)
    (hbody : ∀ n ∈ body, n ∈ (({} : Session).calls cs).returned) :
    let p := (({} : Session).calls cs).builder.finish body
    p.validate = .ok () ∧
    p.tree.root.index + 1 = p.tree.size ∧
    p.tree.get? p.tree.root = some { kind := .program body, type := none } ∧
    (∀ n : NodeId, n.index < p.tree.root.index → ∃ before action kind given h after,
      cs = before ++ .build action kind given h :: after ∧
        (action (({} : Session).calls before).builder).1 = n) ∧
    ∀ before action kind given h after, cs = before ++ .build action kind given h :: after →
      let b := (({} : Session).calls before).builder
      let n := (action b).1
      p.tree.get? n = some
        { kind
          type := (lastType n after).or (given.settle b).1
          contextualType := lastContextualType n after
          span := lastSpan n {} after } := by
  intro p
  have hsound : (({} : Session).calls cs).Sound :=
    Session.Sound.calls ⟨Builder.sound_new, by simp⟩ hcs
  refine ⟨?_, ?_, ?_, ?_, ?_⟩
  · rw [Program.validate_eq_ok_iff]
    refine Builder.Sound.valid (hsound.builder.addNode (fun n hn => ?_) (by simp)) ?_
    · exact hsound.returned n (hbody n hn)
    · exact Nat.lt_of_lt_of_eq (Nat.lt_succ_self _) (Builder.size_finish _ body).symm
  · exact (Builder.size_finish _ body).symm
  · exact (Builder.get?_addNode _ (.program body) none _).trans (if_pos rfl)
  · intro n hn
    exact Session.exists_build hn (Nat.zero_le _)
  · rintro before action kind given h after rfl b n
    have hnode := Session.get?_of_build {} before after h
    simp only [Session.settled, Option.or_none] at hnode
    exact Builder.get?_finish_of_get? hnode body

/-- A literal and a call in a sequence.  The type of the call is set twice after it is built, and
its span is set and then moved to another line. -/
def savingCalls : List Call :=
  [.make (Build.resultType {} Primitive.number.id Primitive.string.id) _ (.resultType {} _ _),
    .make (Build.type (·.function [] ⟨13⟩)) _ (.function [] ⟨13⟩),
    .build (Build.identifier "save" ⟨14⟩) _ _ (.identifier "save" ⟨14⟩),
    .build (Build.call ⟨0⟩ [] .unknown) _ _ (.call ⟨0⟩ [] .unknown),
    .setType ⟨1⟩ .undefined,
    .setContextualType ⟨1⟩ Primitive.void.id,
    .build (Build.string "ok") _ _ (.string "ok"),
    .setType ⟨1⟩ ⟨13⟩,
    .setSpan ⟨1⟩ ⟨7, 13, 1, 8⟩,
    .atLine ⟨1⟩ 3,
    .build (Build.sequence [⟨2⟩, ⟨1⟩]) _ _ (.sequence [⟨2⟩] ⟨1⟩),
    .build (Build.expressionStatement ⟨3⟩) _ _ (.expressionStatement ⟨3⟩)]

theorem finish_calls_saving :
    let p := (({} : Session).calls savingCalls).builder.finish [⟨4⟩]
    ({} : Session).AllowsAll savingCalls ∧ ⟨4⟩ ∈ (({} : Session).calls savingCalls).returned ∧
      p.validate = .ok () ∧ p.tree.root = ⟨5⟩ ∧
      p.tree.get? ⟨1⟩ = some
        { kind := .call ⟨0⟩ [] false, type := some ⟨13⟩, contextualType := some Primitive.void.id
          span := ⟨7, 7, 3, 1⟩ } := by
  have hcs : ({} : Session).AllowsAll savingCalls := by decide
  have hbody : ⟨4⟩ ∈ (({} : Session).calls savingCalls).returned := by decide
  obtain ⟨hvalid, -, -, -, hnodes⟩ := finish_calls savingCalls [⟨4⟩] hcs (by simpa using hbody)
  have hcall := hnodes (savingCalls.take 3) _ _ _ _ (savingCalls.drop 4) rfl
  exact ⟨hcs, hbody, hvalid, by decide, hcall⟩

end ResultLint
