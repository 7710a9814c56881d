import ResultLint.Config.Basic
import ResultLint.Tree.Basic

/-!
# Diagnostics

A diagnostic says what is wrong with which node.  Its message follows from its kind.
-/

namespace ResultLint

inductive DiagnosticKind where
  | floating
  | floatingResultArray
  | conditional
  | voidReturnArgument
  | voidReturnVariable
  | voidReturnProperty
  | voidReturnReturnValue
  | voidReturnAttribute
  | spread
  | predicate
  | voidReturnInheritedMethod (heritageTypeName : String)
deriving DecidableEq, Repr

namespace DiagnosticKind

/-- The name of a kind of diagnostic, whatever it quotes. -/
def id : DiagnosticKind → String
  | floating => "floating"
  | floatingResultArray => "floatingResultArray"
  | conditional => "conditional"
  | voidReturnArgument => "voidReturnArgument"
  | voidReturnVariable => "voidReturnVariable"
  | voidReturnProperty => "voidReturnProperty"
  | voidReturnReturnValue => "voidReturnReturnValue"
  | voidReturnAttribute => "voidReturnAttribute"
  | spread => "spread"
  | predicate => "predicate"
  | voidReturnInheritedMethod _ => "voidReturnInheritedMethod"

def providedMessage (place : String) : String :=
  "Result-returning function provided to " ++ place ++ " where a void return was expected."

def message : DiagnosticKind → String
  | floating => "Results must be handled."
  | floatingResultArray =>
    "An array of Results must be handled. Combine them into a single Result first."
  | conditional => "Expected non-Result value in a boolean conditional."
  | voidReturnArgument => "Result returned in function argument where a void return was expected."
  | voidReturnVariable => providedMessage "variable"
  | voidReturnProperty => providedMessage "property"
  | voidReturnReturnValue => providedMessage "return value"
  | voidReturnAttribute => providedMessage "attribute"
  | spread => "Expected a non-Result value to be spread."
  | predicate => "Expected a non-Result value to be returned from an array predicate."
  | voidReturnInheritedMethod name =>
    "Result-returning method provided where a void return was expected by extended/implemented type '"
      ++ name ++ "'."

end DiagnosticKind

structure Diagnostic where
  /-- The name of the rule that it comes from. -/
  rule : String
  code : String
  kind : DiagnosticKind
  node : NodeId
  span : Span
  severity : Severity
  notes : List String := []
deriving DecidableEq, Repr

namespace Diagnostic

def message (d : Diagnostic) : String := d.kind.message

def withNote (d : Diagnostic) (note : String) : Diagnostic := { d with notes := d.notes ++ [note] }

end Diagnostic

end ResultLint
