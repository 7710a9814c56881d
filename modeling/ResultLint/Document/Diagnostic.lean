import ResultLint.Diagnostic
import ResultLint.Document.Tree

/-!
# Diagnostics in documents
-/

namespace ResultLint

def DiagnosticKind.toJson (kind : DiagnosticKind) : Json :=
  .object (("id", .string kind.id) ::
    match kind with
    | voidReturnInheritedMethod name => [("heritageTypeName", .string name)]
    | _ => [])

def Severity.toJson (s : Severity) : Json := .string s.name

def Diagnostic.toJson (d : Diagnostic) : Json :=
  .object [("rule", .string d.rule), ("code", .string d.code), ("kind", d.kind.toJson),
    ("message", .string d.message), ("node", d.node.toJson), ("span", d.span.toJson),
    ("severity", d.severity.toJson), ("notes", .ofList .string d.notes)]

end ResultLint
