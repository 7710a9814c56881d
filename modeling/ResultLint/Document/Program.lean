import ResultLint.Analysis.Shape
import ResultLint.Document.Tree
import ResultLint.Document.Types
import ResultLint.Json.Reader
import ResultLint.Program.Validity

/-!
# Program documents

`Program.parse?` reads a document as it is, `Program.load` only if the program is valid, and
`Program.render` writes one.
-/

namespace ResultLint

inductive LoadError where
  | malformed
  | invalid (violation : Violation)
deriving DecidableEq, Repr

def ResultShape.ofJson? (json : Json) : Option ResultShape := do
  let r ← json.record ["discriminant", "success", "failure"]
  return {
    discriminant := ← r.defaulted "discriminant" Json.text "tag"
    success := ← r.defaulted "success" Json.text "success"
    failure := ← r.defaulted "failure" Json.text "failure" }

namespace Program

def toJson (p : Program) : Json := .object [("types", p.types.toJson), ("tree", p.tree.toJson)]

def ofJson? (json : Json) : Option Program := do
  let r ← json.record ["types", "tree"]
  return {
    types := ← r.required "types" TypeTable.ofJson?
    tree := ← r.required "tree" Tree.ofJson? }

def render (p : Program) : String := p.toJson.render

/-- The program in a document, valid or not. -/
def parse? (text : String) : Option Program := (Json.parse? text).bind ofJson?

/-- What was read, if it is a valid program. -/
def accept (read : Option Program) : Except LoadError Program :=
  match read with
  | none => .error .malformed
  | some p =>
    match p.validate with
    | .ok _ => .ok p
    | .error violation => .error (.invalid violation)

/-- The valid program in a document. -/
def load (text : String) : Except LoadError Program := accept (parse? text)

end Program

end ResultLint
