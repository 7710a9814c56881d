import ResultLint.Document.Names
import ResultLint.Types.Table

/-!
# Types in documents

A type says its form under `type` and has the fields of that form beside it; or it is an array of
the form and the fields.  Optional parts that are absent are not written.
-/

namespace ResultLint

/-! ### Writing -/

def LiteralType.toJson : LiteralType → Json
  | string s => .object [("kind", .string "string"), ("value", .string s)]
  | number s => .object [("kind", .string "number"), ("value", .string s)]
  | boolean b => .object [("kind", .string "boolean"), ("value", .bool b)]

def Parameter.toJson (p : Parameter) : Json :=
  .object [("name", .string p.name), ("ty", p.type.toJson), ("rest", .bool p.rest)]

def Signature.toJson (s : Signature) : Json :=
  .object [("params", .ofList Parameter.toJson s.params), ("returnType", s.returnType.toJson)]

def Property.toJson (p : Property) : Json :=
  .object [("name", .string p.name), ("ty", p.type.toJson)]

/-- A field that is written only when it is there. -/
def Json.optionalField {α : Type} (name : String) (f : α → Json) (a : Option α) :
    List (String × Json) :=
  (a.map fun a => (name, f a)).toList

/-- Signatures are written only when there are some. -/
def Signature.listField (name : String) (ss : List Signature) : List (String × Json) :=
  if ss.isEmpty then [] else [(name, .ofList Signature.toJson ss)]

def ObjectType.fields (o : ObjectType) : List (String × Json) :=
  Json.optionalField "name" Json.string o.name
    ++ [("properties", .ofList Property.toJson o.properties)]
    ++ Signature.listField "callSignatures" o.callSignatures
    ++ Signature.listField "constructSignatures" o.constructSignatures

namespace Ty

def form : Ty → String
  | primitive _ => "primitive"
  | literal _ => "literal"
  | object _ => "object"
  | union _ => "union"
  | array _ => "array"
  | tuple _ => "tuple"
  | parameter _ _ => "typeParameter"

def fields : Ty → List (String × Json)
  | primitive p => [("primitive", .string p.name)]
  | literal l => [("literal", l.toJson)]
  | object o => o.fields
  | union members => [("members", .ofList TypeId.toJson members)]
  | array element => [("element", element.toJson)]
  | tuple elements => [("elements", .ofList TypeId.toJson elements)]
  | parameter name constraint =>
    ("name", .string name) :: Json.optionalField "constraint" TypeId.toJson constraint

def toJson (ty : Ty) : Json := .object (("type", .string ty.form) :: ty.fields)

end Ty

def TypeTable.toJson (t : TypeTable) : Json := .ofList Ty.toJson t.entries.toList

/-! ### Reading -/

namespace LiteralType

/-- The names of the kinds, in the order of their numbers. -/
def kinds : List String := ["string", "number", "boolean"]

/-- The literal type of that kind. -/
def ofKind? (kind : String) (value : Json) : Option LiteralType :=
  match kind with
  | "string" => string <$> value.text
  | "number" => number <$> value.text
  | "boolean" => boolean <$> value.flag
  | _ => none

/-- An object of kind and value, or an array of both.  In an array the kind may be given by its
number. -/
def ofJson? : Json → Option LiteralType
  | .array [.string kind, value] => ofKind? kind value
  | .array [.integer i, value] =>
    if 0 ≤ i then kinds[i.toNat]?.bind (ofKind? · value) else none
  | .object fields => do
    let r := Json.values fields
    ofKind? (← r.required "kind" Json.choice) (← r.required "value" some)
  | _ => none

end LiteralType

def Parameter.ofJson? (json : Json) : Option Parameter := do
  let r ← json.record ["name", "ty", "rest"]
  return {
    name := ← r.required "name" Json.text
    type := ← r.required "ty" TypeId.ofJson?
    rest := ← r.defaulted "rest" Json.flag false }

def Signature.ofJson? (json : Json) : Option Signature := do
  let r ← json.record ["params", "returnType"]
  return {
    params := ← r.required "params" (Json.list Parameter.ofJson?)
    returnType := ← r.required "returnType" TypeId.ofJson? }

def Property.ofJson? (json : Json) : Option Property := do
  let r ← json.record ["name", "ty"]
  return { name := ← r.required "name" Json.text, type := ← r.required "ty" TypeId.ofJson? }

def ObjectType.ofJson? (json : Json) : Option ObjectType := do
  let r ← json.record ["name", "properties", "callSignatures", "constructSignatures"]
  return {
    name := ← r.optional "name" Json.text
    properties := ← r.defaulted "properties" (Json.list Property.ofJson?) []
    callSignatures := ← r.defaulted "callSignatures" (Json.list Signature.ofJson?) []
    constructSignatures := ← r.defaulted "constructSignatures" (Json.list Signature.ofJson?) [] }

namespace Ty

/-- The type of a form, from the fields of the form. -/
def ofForm? (form : String) (body : Json) : Option Ty :=
  match form with
  | "primitive" => do
    let r ← body.record ["primitive"]
    primitive <$> r.required "primitive" Primitive.ofJson?
  | "literal" => do
    let r ← body.record ["literal"]
    literal <$> r.required "literal" LiteralType.ofJson?
  | "object" => object <$> ObjectType.ofJson? body
  | "union" => do
    let r ← body.record ["members"]
    union <$> r.required "members" (Json.list TypeId.ofJson?)
  | "array" => do
    let r ← body.record ["element"]
    array <$> r.required "element" TypeId.ofJson?
  | "tuple" => do
    let r ← body.record ["elements"]
    tuple <$> r.required "elements" (Json.list TypeId.ofJson?)
  | "typeParameter" => do
    let r ← body.record ["name", "constraint"]
    return parameter (← r.required "name" Json.text) (← r.optional "constraint" TypeId.ofJson?)
  | _ => none

/-- Fields that are passed over have to be sound as well. -/
def ofJson? (json : Json) : Option Ty :=
  match json with
  | .object fields => do
    guard json.sound
    let form ← (Json.values fields).required "type" Json.text
    ofForm? form (.object (fields.filter (·.1 ≠ "type")))
  | .array (.string form :: items) => do
    guard json.sound
    ofForm? form (.array items)
  | _ => none

end Ty

def TypeTable.ofJson? (json : Json) : Option TypeTable :=
  (json.list Ty.ofJson?).map fun types => ⟨types.toArray⟩

end ResultLint
