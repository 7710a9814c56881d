import ResultLint.Rules.Misuse.Collection
import ResultLint.Rules.Misuse.VoidReturn

/-!
# Misused Results

The rule that looks for Results where they are easily taken for something else: conditions,
functions that should return nothing, spreads and predicates.  Each check is run only if it is
switched on.
-/

namespace ResultLint

namespace Misuse

/-- What is found if a check is on. -/
def when (on : Bool) (found : List Diagnostic) : List Diagnostic := if on then found else []

def whenCheck (on : Bool) (check : Check) : Check := if on then check else pure []

def checkStatement (checks : MisuseChecks) (c : Context) (statement : NodeId) : Check :=
  match c.tree.kind? statement with
  | some (.ifElse test _ _) => whenCheck checks.conditionals (checkCondition c true test)
  | some (.whileLoop test _) => whenCheck checks.conditionals (checkCondition c true test)
  | some (.doWhileLoop _ test) => whenCheck checks.conditionals (checkCondition c true test)
  | some (.forLoop _ (some test) _ _) =>
    whenCheck checks.conditionals (checkCondition c true test)
  | some (.returnStatement (some argument)) =>
    pure (when checks.voidReturn.returns (checkReturn c argument))
  | some (.variableDeclaration declarators) =>
    pure (when checks.voidReturn.assignments (declarators.flatMap (checkDeclarator c)))
  | _ => pure []

/-- Conditions among the parts of an expression. -/
def checkConditions (c : Context) (expression : NodeId) : Check :=
  match c.tree.kind? expression with
  | some (.conditional test _ _) => checkCondition c true test
  | some (.logical _ _ _) => checkCondition c false expression
  | some (.unary .not argument) => checkCondition c true argument
  | _ => pure []

/-- All other misuses in an expression. -/
def checkValues (checks : MisuseChecks) (c : Context) (expression : NodeId) : List Diagnostic :=
  match c.tree.kind? expression with
  | some (.call callee arguments _) =>
    when checks.voidReturn.arguments (checkArguments c .call callee (some arguments))
      ++ when checks.predicates (checkPredicate c callee arguments)
  | some (.construct callee arguments) =>
    when checks.voidReturn.arguments (checkArguments c .construct callee arguments)
  | some (.assignment _ left right) =>
    when checks.voidReturn.assignments (checkAssignment c left right)
  | some (.objectLiteral properties) =>
    when checks.voidReturn.properties (properties.flatMap (checkProperty c expression))
      ++ when checks.spreads (checkSpreads c properties)
  | some (.arrayLiteral elements) => when checks.spreads (checkSpreads c elements)
  | some (.element _ attributes _) =>
    when checks.voidReturn.attributes (attributes.flatMap (checkAttribute c))
  | _ => []

def checkExpression (checks : MisuseChecks) (c : Context) (expression : NodeId) : Check := do
  let found ← whenCheck checks.conditionals (checkConditions c expression)
  return found ++ checkValues checks c expression

end Misuse

/-- Results are not misused. -/
def Rule.misuse (checks : MisuseChecks) : Rule where
  info := Misuse.info
  checkStatement := Misuse.checkStatement checks
  checkExpression := Misuse.checkExpression checks
  checkClassMember c declaration member :=
    pure (Misuse.when checks.voidReturn.inheritedMethods
      (Misuse.checkInherited c declaration member))

end ResultLint
