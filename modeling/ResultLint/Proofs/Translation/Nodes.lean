import ResultLint.Proofs.Dispatch

/-!
# Other numbers for nodes

The kind of a node with other numbers for its parts.  Nothing else about it changes: its parts come
in the same order, it counts as the same, and rules are called at it in the same way.
-/

namespace ResultLint

def Key.map (g : NodeId → NodeId) : Key → Key
  | name s => .name s
  | computed n => .computed (g n)

namespace NodeKind

/-- The kind with other numbers for the parts of the node. -/
def map (g : NodeId → NodeId) : NodeKind → NodeKind
  | program body => .program (body.map g)
  | block body => .block (body.map g)
  | expressionStatement expression => .expressionStatement (g expression)
  | ifElse test consequent alternate => .ifElse (g test) (g consequent) (alternate.map g)
  | whileLoop test body => .whileLoop (g test) (g body)
  | doWhileLoop body test => .doWhileLoop (g body) (g test)
  | forLoop init test update body => .forLoop (init.map g) (test.map g) (update.map g) (g body)
  | returnStatement argument => .returnStatement (argument.map g)
  | variableDeclaration declarators => .variableDeclaration (declarators.map g)
  | variableDeclarator target init => .variableDeclarator (g target) (init.map g)
  | function form name params body => .function form name (params.map g) (g body)
  | classDeclaration name heritage members =>
    .classDeclaration name (heritage.map g) (members.map g)
  | interfaceDeclaration name heritage members =>
    .interfaceDeclaration name (heritage.map g) (members.map g)
  | classMember key form value isStatic => .classMember (key.map g) form (value.map g) isStatic
  | sequence expressions => .sequence (expressions.map g)
  | unary operator argument => .unary operator (g argument)
  | binary operator left right => .binary operator (g left) (g right)
  | logical operator left right => .logical operator (g left) (g right)
  | conditional test consequent alternate =>
    .conditional (g test) (g consequent) (g alternate)
  | assignment operator left right => .assignment operator (g left) (g right)
  | call callee arguments isOptional => .call (g callee) (arguments.map g) isOptional
  | construct callee arguments => .construct (g callee) (arguments.map (·.map g))
  | member object key isOptional => .member (g object) (key.map g) isOptional
  | chain expression => .chain (g expression)
  | identifier name => .identifier name
  | literal value => .literal value
  | objectLiteral properties => .objectLiteral (properties.map g)
  | property key value form => .property (key.map g) (g value) form
  | arrayLiteral elements => .arrayLiteral (elements.map g)
  | spread argument => .spread (g argument)
  | element name attributes children => .element name (attributes.map g) (children.map g)
  | elementAttribute name value => .elementAttribute name (value.map g)

variable (g : NodeId → NodeId)

theorem toList_map_key (key : Key) : (key.map g).node?.toList = key.node?.toList.map g := by
  cases key <;> rfl

theorem toList_map_option (part : Option NodeId) : (part.map g).toList = part.toList.map g := by
  cases part <;> rfl

/-- **The parts come in the same order.** -/
theorem children_map (kind : NodeKind) : (kind.map g).children = kind.children.map g := by
  cases kind with
  | construct callee arguments => cases arguments <;> rfl
  | _ => simp [map, children, toList_map_key, toList_map_option]

theorem mentions_map_iff {kind : NodeKind} {n : NodeId} :
    (kind.map g).Mentions n ↔ ∃ m, kind.Mentions m ∧ g m = n := by
  simp only [← mem_children_iff, children_map, List.mem_map]

theorem category_map (kind : NodeKind) : (kind.map g).category = kind.category := by
  cases kind with
  | function form name params body => cases form <;> rfl
  | _ => rfl

theorem classLike?_map (kind : NodeKind) :
    (kind.map g).classLike? = kind.classLike?.map fun parts => (parts.1.map g, parts.2.map g) := by
  cases kind <;> rfl

end NodeKind

theorem Key.map_id (key : Key) : key.map id = key := by
  cases key <;> rfl

theorem NodeKind.map_id (kind : NodeKind) : kind.map id = kind := by
  have hlists : (List.map id : List NodeId → List NodeId) = id := funext List.map_id
  cases kind <;> simp [map, Key.map_id, hlists]

/-- The hook at other nodes. -/
def Hook.map (g : NodeId → NodeId) : Hook → Hook
  | program root => .program (g root)
  | statement n => .statement (g n)
  | expression n => .expression (g n)
  | classMember declaration member => .classMember (g declaration) (g member)

theorem NodeKind.hooks_map (g : NodeId → NodeId) (kind : NodeKind) (n : NodeId) :
    (kind.map g).hooks (g n) = (kind.hooks n).map (Hook.map g) := by
  rw [hooks, hooks, category_map, classLike?_map]
  cases kind.category with
  | statement =>
    rw [List.map_cons, List.map_map]
    cases kind.classLike? with
    | none => rfl
    | some parts =>
      show _ :: (parts.2.map g).map _ = _ :: parts.2.map _
      rw [List.map_map]
      rfl
  | expression => rfl
  | other => rfl

/-- The node with other numbers for its types and its parts. -/
def Node.map (f : TypeId → TypeId) (g : NodeId → NodeId) (node : Node) : Node where
  kind := node.kind.map g
  span := node.span
  type := node.type.map f
  contextualType := node.contextualType.map f

end ResultLint
