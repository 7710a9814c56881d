import ResultLint.Rules.Floating
import ResultLint.Rules.Misuse
import ResultLint.Tree.Visit

/-!
# Linting

The rules look at the root first.  Then the tree is visited once: at a statement all rules look at
it and, if it is a class or interface, at its members; at an expression all rules look at it.  Rules
that are off do not run, and the severities of the configuration are applied to what the others
find.
-/

namespace ResultLint

/-- What is found so far, and the nodes that checks have looked at. -/
structure Log where
  diagnostics : Array Diagnostic := #[]
  visits : Visits := []

namespace Log

def add (log : Log) (check : Check) : Log :=
  let (found, visits) := check.run log.visits
  ⟨log.diagnostics ++ found, visits⟩

def addAll (log : Log) (checks : List Check) : Log := checks.foldl add log

end Log

namespace Rule

/-- The checks of the members of a class or interface. -/
def memberChecks (rules : List Rule) (c : Context) (declaration : NodeId) : List Check :=
  match (c.tree.kind? declaration).bind (·.classLike?) with
  | some (_, members) =>
    members.flatMap fun member => rules.map fun r => r.checkClassMember c declaration member
  | none => []

def visitor (rules : List Rule) (c : Context) : Visitor Log where
  statement id log :=
    (true, (log.addAll (rules.map (·.checkStatement c id))).addAll (memberChecks rules c id))
  expression id log := (true, log.addAll (rules.map (·.checkExpression c id)))

/-- All that the rules find in a program. -/
def run (rules : List Rule) (c : Context) : List Diagnostic :=
  let log := Log.addAll {} (rules.map (·.checkProgram c c.tree.root))
  (c.tree.visit (visitor rules c) c.tree.root log).diagnostics.toList

end Rule

namespace Config

def rules (config : Config) : List Rule := [.floating, .misuse config.misuse]

def activeRules (config : Config) : List Rule :=
  config.rules.filter fun r => !config.isDisabled r.info.name

/-- The diagnostic with the severity that is configured for its rule. -/
def applySeverity (config : Config) (d : Diagnostic) : Diagnostic :=
  { d with severity := config.severity d.rule d.severity }

def lint (config : Config) (p : Program) : List Diagnostic :=
  (Rule.run config.activeRules ⟨p, config.shape⟩).map config.applySeverity

end Config

/-- Some diagnostic is an error. -/
def Diagnostic.anyError (ds : List Diagnostic) : Bool := ds.any (·.severity = .error)

end ResultLint
