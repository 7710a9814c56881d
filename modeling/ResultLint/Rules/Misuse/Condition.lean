import ResultLint.Rules.Basic

/-!
# Results as conditions

A Result is an object and hence always true.  In a test both operands of a logical expression are
conditions; outside one only the left operand is, and not that of `??`, which asks for something
else.
-/

namespace ResultLint

namespace Misuse

def info : RuleInfo where
  name := "no-misused-railways"
  code := "L1002"
  description := "Disallow Results in places not designed to handle them"
  category := .correctness
  severity := .error

/-- The name under which conditions are remembered. -/
def conditionKey : String := "conditional"

/-- Checks a condition, `depth` levels deep. -/
def checkConditionWithin (c : Context) : Nat → Bool → NodeId → Check
  | 0, _, _ => pure []
  | depth + 1, inTest, node => do
    if !(← firstVisit conditionKey node) then return []
    match c.tree.kind? node with
    | some (.logical operator left right) =>
      let found ←
        if operator ≠ .nullish || inTest then checkConditionWithin c depth inTest left
        else pure []
      let more ← if inTest then checkConditionWithin c depth inTest right else pure []
      return found ++ more
    | _ => return if c.isAlwaysResult node then [c.report info .conditional node] else []

/-- Checks a condition; `inTest` says that it stands in a test. -/
def checkCondition (c : Context) (inTest : Bool) (node : NodeId) : Check :=
  checkConditionWithin c (c.tree.size + 1) inTest node

end Misuse

end ResultLint
