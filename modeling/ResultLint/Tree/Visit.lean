import ResultLint.Tree.Basic

/-!
# Visiting a tree

A visit goes through a tree in source order, parents first.  A visitor is told of statements and
expressions as they are met, carries a state along, and says each time whether the parts of the node
are visited as well.  A node that occurs in two places is visited twice.
-/

namespace ResultLint

/-- What is done at a statement and at an expression; the parts are visited if the
answer is `true`. -/
structure Visitor (σ : Type) where
  statement : NodeId → σ → Bool × σ := fun _ s => (true, s)
  expression : NodeId → σ → Bool × σ := fun _ s => (true, s)

namespace Visitor

variable {σ : Type}

/-- What is done at a node of that category. -/
def enter (v : Visitor σ) : Category → NodeId → σ → Bool × σ
  | .statement => v.statement
  | .expression => v.expression
  | .other => fun _ s => (true, s)

end Visitor

namespace Tree

variable {σ : Type}

/-- The visit of a node and what is below it, `depth` levels deep.  Missing nodes are
passed over. -/
def visitWithin (t : Tree) (v : Visitor σ) : Nat → NodeId → σ → σ
  | 0, _, s => s
  | depth + 1, id, s =>
    match t.get? id with
    | none => s
    | some node =>
      match v.enter node.kind.category id s with
      | (true, s) => node.kind.children.foldl (fun s child => visitWithin t v depth child s) s
      | (false, s) => s

/-- The visit of a node and all that is below it. -/
def visit (t : Tree) (v : Visitor σ) (id : NodeId) (s : σ) : σ := t.visitWithin v t.size id s

/-- The visit of all that is below a node, without the node. -/
def visitChildren (t : Tree) (v : Visitor σ) (id : NodeId) (s : σ) : σ :=
  match t.get? id with
  | none => s
  | some node => node.kind.children.foldl (fun s child => t.visit v child s) s

end Tree

end ResultLint
