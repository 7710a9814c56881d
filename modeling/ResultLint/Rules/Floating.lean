import ResultLint.Rules.Basic

/-!
# Floating Results

An expression statement that ends in a Result drops it.  The parts of the expression whose values
are dropped with it are searched for one that makes a Result: a call, a name, a member.  An
assignment hands the Result over.
-/

namespace ResultLint

namespace Floating

def info : RuleInfo where
  name := "no-floating-railways"
  code := "L1001"
  description := "Require Result-like statements to be handled appropriately"
  category := .correctness
  severity := .error

/-- What is dropped. -/
inductive Dropped where
  | result
  | resultArray
deriving DecidableEq, Repr

/-- The first Result that is dropped with the value of a node, `depth` levels deep. -/
def droppedWithin (c : Context) : Nat → NodeId → Option Dropped
  | 0, _ => none
  | depth + 1, node =>
    let node := c.tree.skipChain node
    match c.tree.kind? node with
    | none => none
    | some (.assignment _ _ _) => none
    | some (.sequence expressions) => expressions.findSome? (droppedWithin c depth)
    | some (.unary .void argument) => droppedWithin c depth argument
    | some kind =>
      if c.isResultArrayOrTuple node then some .resultArray
      else if !c.isSometimesResult node then none
      else
        match kind with
        | .call _ _ _ => some .result
        | .construct _ _ => some .result
        | .member _ _ _ => some .result
        | .identifier _ => some .result
        | .conditional _ consequent alternate =>
          (droppedWithin c depth alternate).or (droppedWithin c depth consequent)
        | .logical _ left right => (droppedWithin c depth left).or (droppedWithin c depth right)
        | _ => none

def dropped? (c : Context) (node : NodeId) : Option Dropped := droppedWithin c c.tree.size node

def Dropped.report (c : Context) (statement : NodeId) : Dropped → Diagnostic
  | result =>
    (c.report info .floating statement).withNote "Assign the Result or branch on its tag"
  | resultArray =>
    (c.report info .floatingResultArray statement).withNote
      "Combine the Results into one before handling it"

def checkStatement (c : Context) (statement : NodeId) : List Diagnostic :=
  match c.tree.kind? statement with
  | some (.expressionStatement expression) =>
    ((dropped? c expression).map (·.report c statement)).toList
  | _ => []

end Floating

/-- Results are not dropped. -/
def Rule.floating : Rule where
  info := Floating.info
  checkStatement c statement := pure (Floating.checkStatement c statement)

end ResultLint
