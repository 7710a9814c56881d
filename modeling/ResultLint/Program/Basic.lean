import ResultLint.Tree.Basic
import ResultLint.Types.Table

/-!
# Programs

A program is a tree with the table of its types.
-/

namespace ResultLint

structure Program where
  types : TypeTable
  tree : Tree
deriving DecidableEq, Repr

namespace Program

/-- The type of a node, `unknown` where none is given. -/
def typeAt (p : Program) (id : NodeId) : TypeId := ((p.tree.get? id).bind (·.type)).getD .unknown

/-- The type that the surroundings of a node expect. -/
def contextualType? (p : Program) (id : NodeId) : Option TypeId :=
  (p.tree.get? id).bind (·.contextualType)

end Program

end ResultLint
