import ResultLint.Types.Table

/-!
# The text of a type

A declared object type shows its name and every other type its form, nine layers deep.
-/

namespace ResultLint

namespace TypeTable

def sequenceText (separator : String) (texts : List String) : String :=
  separator.intercalate texts

def parameterText (show_ : TypeId → String) (p : Parameter) : String :=
  (if p.rest then "..." else "") ++ p.name ++ ": " ++ show_ p.type

def signatureText (show_ : TypeId → String) (s : Signature) : String :=
  "(" ++ sequenceText ", " (s.params.map (parameterText show_)) ++ ") => " ++ show_ s.returnType

def propertyText (show_ : TypeId → String) (p : Property) : String :=
  p.name ++ ": " ++ show_ p.type

/-- An anonymous object type.  A function with nothing else to it shows its signature only. -/
def objectText (show_ : TypeId → String) (o : ObjectType) : String :=
  match o.properties, o.callSignatures with
  | [], [s] => signatureText show_ s
  | ps, ss =>
    "\x7b " ++ sequenceText "; " (ps.map (propertyText show_) ++ ss.map (signatureText show_))
      ++ " \x7d"

/-- The text of a type, `depth` layers deep. -/
def textWithin (t : TypeTable) : Nat → TypeId → String
  | 0, _ => "..."
  | depth + 1, id =>
    let show_ := textWithin t depth
    match t.resolve id with
    | .primitive p => p.name
    | .literal l => l.text
    | .object o => o.name.getD (objectText show_ o)
    | .union members => sequenceText " | " (members.map show_)
    | .array element =>
      (if (t.resolve element).isUnion then "(" ++ show_ element ++ ")" else show_ element) ++ "[]"
    | .tuple elements => "[" ++ sequenceText ", " (elements.map show_) ++ "]"
    | .parameter name _ => name

def display (t : TypeTable) (id : TypeId) : String := t.textWithin 9 id

end TypeTable

end ResultLint
