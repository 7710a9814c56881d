import ResultLint.Analysis.Shape

/-!
# Configurations

A configuration changes the severity of rules, names the shape of a Result, and switches the checks
of the rule on misused Results.  All checks are on unless they are switched off.
-/

namespace ResultLint

inductive Severity where
  | off
  | warn
  | error
deriving DecidableEq, Repr

def Severity.name : Severity → String
  | off => "off"
  | warn => "warn"
  | error => "error"

def Severity.ofName? (s : String) : Option Severity :=
  [off, warn, error].find? (·.name = s)

/-- Where a function that returns a Result is looked for in place of one that returns nothing. -/
structure VoidReturnChecks where
  arguments : Bool := true
  attributes : Bool := true
  properties : Bool := true
  returns : Bool := true
  assignments : Bool := true
  inheritedMethods : Bool := true
deriving DecidableEq, Repr

namespace VoidReturnChecks

def all : VoidReturnChecks := {}

def none : VoidReturnChecks := ⟨false, false, false, false, false, false⟩

/-- Some check is on. -/
def any (c : VoidReturnChecks) : Bool :=
  c.arguments || c.attributes || c.properties || c.returns || c.assignments || c.inheritedMethods

end VoidReturnChecks

/-- The checks of the rule on misused Results. -/
structure MisuseChecks where
  conditionals : Bool := true
  voidReturn : VoidReturnChecks := {}
  spreads : Bool := true
  predicates : Bool := true
deriving DecidableEq, Repr

structure Config where
  /-- Severities by the name of the rule. -/
  overrides : List (String × Severity) := []
  shape : ResultShape := {}
  misuse : MisuseChecks := {}
deriving DecidableEq, Repr

namespace Config

def override? (c : Config) (rule : String) : Option Severity :=
  (c.overrides.find? (·.1 = rule)).map (·.2)

def setSeverity (c : Config) (rule : String) (severity : Severity) : Config :=
  { c with overrides := (rule, severity) :: c.overrides.filter (·.1 ≠ rule) }

/-- The severity of a rule whose own one is `default`. -/
def severity (c : Config) (rule : String) (default : Severity) : Severity :=
  (c.override? rule).getD default

def isDisabled (c : Config) (rule : String) : Bool := c.override? rule = some .off

end Config

end ResultLint
