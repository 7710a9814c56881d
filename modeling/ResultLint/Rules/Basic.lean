import ResultLint.Analysis.Callable
import ResultLint.Diagnostic
import ResultLint.Program.Basic

/-!
# Rules

A rule looks at the root of a program, at its statements and expressions, and at the members of its
classes and interfaces, each time with the whole program at hand.  Checks may remember the nodes
that they have looked at, so that they look at each only once.
-/

namespace ResultLint

/-- What a rule is about. -/
inductive RuleCategory where
  | correctness
  | style
  | bestPractice
deriving DecidableEq, Repr

structure RuleInfo where
  name : String
  code : String
  description : String
  category : RuleCategory
  severity : Severity
deriving DecidableEq, Repr

/-- A program under a shape of Results. -/
structure Context where
  program : Program
  shape : ResultShape

namespace Context

def tree (c : Context) : Tree := c.program.tree

def classifier (c : Context) : Classifier := ⟨c.program.types, c.shape⟩

def isSometimesResult (c : Context) (node : NodeId) : Bool :=
  c.classifier.isSometimesResult (c.program.typeAt node)

def isAlwaysResult (c : Context) (node : NodeId) : Bool :=
  c.classifier.isAlwaysResult (c.program.typeAt node)

def isResultArrayOrTuple (c : Context) (node : NodeId) : Bool :=
  c.classifier.isResultArrayOrTuple (c.program.typeAt node)

/-- The node is a function that returns a Result. -/
def returnsResult (c : Context) (node : NodeId) : Bool :=
  c.classifier.isResultReturning (c.program.types.apparentType (c.program.typeAt node))

/-- The types that the type of a node amounts to. -/
def apparentMembers (c : Context) (id : TypeId) : List TypeId := c.program.types.apparentMembers id

/-- The first property of that name among the types that a type amounts to. -/
def apparentProperty? (c : Context) (id : TypeId) (name : String) : Option TypeId :=
  (c.apparentMembers id).findSome? fun member => c.program.types.property? member name

/-- A diagnostic of a rule on a node. -/
def report (c : Context) (info : RuleInfo) (kind : DiagnosticKind) (node : NodeId) : Diagnostic :=
  { rule := info.name, code := info.code, kind, node, span := c.tree.span node,
    severity := info.severity }

end Context

/-- The nodes that were looked at, each with the name of what looked at it. -/
abbrev Visits := List (String × NodeId)

/-- What a check finds, given the nodes looked at before. -/
abbrev Check := StateM Visits (List Diagnostic)

/-- Whether something looks at a node for the first time; from now on it has. -/
def firstVisit (key : String) (node : NodeId) : StateM Visits Bool := fun visits =>
  if (key, node) ∈ visits then (false, visits) else (true, (key, node) :: visits)

structure Rule where
  info : RuleInfo
  checkProgram : Context → NodeId → Check := fun _ _ => pure []
  checkStatement : Context → NodeId → Check := fun _ _ => pure []
  checkExpression : Context → NodeId → Check := fun _ _ => pure []
  /-- Checks a member of a class or interface; the declaration comes first. -/
  checkClassMember : Context → NodeId → NodeId → Check := fun _ _ _ => pure []

end ResultLint
