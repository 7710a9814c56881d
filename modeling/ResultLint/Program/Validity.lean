import ResultLint.Program.Basic

/-!
# Validity of programs

A program is valid when its table starts with the primitives, every number in it refers to
something, and the parts of each node have smaller numbers than the node.  `Program.validate`
answers with the first violation: primitives, types, root, nodes, each in the order of their
numbers.
-/

namespace ResultLint

inductive Violation where
  | primitiveMismatch (id : TypeId)
  | typeRefersToMissingType (id missing : TypeId)
  | nodeRefersToMissingType (node : NodeId) (missing : TypeId)
  | missingRoot (root : NodeId)
  | missingNode (node child : NodeId)
  | childOrder (node child : NodeId)
deriving DecidableEq, Repr

def Violation.message : Violation → String
  | primitiveMismatch id => "Primitive type table mismatch at " ++ id.text
  | typeRefersToMissingType id missing =>
    "type " ++ Nat.repr id.index ++ " references missing type " ++ missing.text
  | nodeRefersToMissingType node missing =>
    "node " ++ node.text ++ " references missing type " ++ missing.text
  | missingRoot root => "Root node " ++ root.text ++ " is out of range"
  | missingNode node child => "Node " ++ node.text ++ " references missing node " ++ child.text
  | childOrder node child =>
    "Node " ++ node.text ++ " references " ++ child.text ++ ", which must precede it"

/-- Fails with `violation` unless the condition holds. -/
def require (condition : Bool) (violation : Violation) : Except Violation Unit :=
  if condition then .ok () else .error violation

namespace TypeTable

def checkPrimitive (t : TypeTable) (p : Primitive) : Except Violation Unit :=
  require (t.get? p.id = some (.primitive p)) (.primitiveMismatch p.id)

def checkEntry (t : TypeTable) (id : TypeId) : Except Violation Unit :=
  (t.resolve id).references.forM fun r => require (t.contains r) (.typeRefersToMissingType id r)

end TypeTable

namespace Tree

def checkRoot (t : Tree) : Except Violation Unit :=
  require (t.root.index < t.size) (.missingRoot t.root)

def checkChild (t : Tree) (id child : NodeId) : Except Violation Unit := do
  require (child.index < t.size) (.missingNode id child)
  require (child.index < id.index) (.childOrder id child)

end Tree

namespace Program

def checkNode (p : Program) (id : NodeId) (node : Node) : Except Violation Unit := do
  node.kind.children.forM (p.tree.checkChild id)
  (node.type.toList ++ node.contextualType.toList).forM fun r =>
    require (p.types.contains r) (.nodeRefersToMissingType id r)

/-- The first violation, if there is one. -/
def validate (p : Program) : Except Violation Unit := do
  Primitive.all.forM p.types.checkPrimitive
  p.types.ids.forM p.types.checkEntry
  p.tree.checkRoot
  p.tree.ids.forM fun id => (p.tree.get? id).toList.forM (p.checkNode id)

end Program

end ResultLint
