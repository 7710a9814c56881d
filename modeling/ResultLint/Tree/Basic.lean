import ResultLint.Tree.Kind
import ResultLint.Types.Basic

/-!
# Trees

A tree lists its nodes by number and names its root.  In a well-formed tree the parts of a node have
smaller numbers than the node; a tree as such may be anything, so walks along it are given as many
steps as there are nodes, which is enough for every path without repetition.
-/

namespace ResultLint

/-- A place in the source. -/
structure Span where
  start : Nat := 0
  stop : Nat := 0
  line : Nat := 0
  column : Nat := 0
deriving DecidableEq, Repr, Inhabited

/-- A node with its type, if it has one, and the type that its surroundings expect, if they do. -/
structure Node where
  kind : NodeKind
  span : Span := {}
  type : Option TypeId := none
  contextualType : Option TypeId := none
deriving DecidableEq, Repr

structure Tree where
  nodes : Array Node
  root : NodeId
deriving DecidableEq, Repr

namespace Tree

def size (t : Tree) : Nat := t.nodes.size

def get? (t : Tree) (id : NodeId) : Option Node := t.nodes[id.index]?

def kind? (t : Tree) (id : NodeId) : Option NodeKind := (t.get? id).map (·.kind)

/-- The place of a node, empty for a missing one. -/
def span (t : Tree) (id : NodeId) : Span := ((t.get? id).map (·.span)).getD {}

def ids (t : Tree) : List NodeId := (List.range t.size).map NodeId.mk

/-- The node under at most `steps` optional chains. -/
def skipChainWithin (t : Tree) : Nat → NodeId → NodeId
  | 0, id => id
  | steps + 1, id =>
    match t.kind? id with
    | some (.chain expression) => skipChainWithin t steps expression
    | _ => id

/-- The node under the optional chains around it. -/
def skipChain (t : Tree) (id : NodeId) : NodeId := t.skipChainWithin t.size id

end Tree

end ResultLint
