import ResultLint.Document.Names
import ResultLint.Json.Writer
import ResultLint.Tree.Basic

/-!
# Trees in documents

A node says its kind under `kind` and has the fields of that kind beside it, then its place and its
types.  The kind is given by its name, or by its number in the list of kinds.
-/

namespace ResultLint

/-! ### Writing -/

def Span.toJson (s : Span) : Json :=
  .object [("start", .ofNat s.start), ("end", .ofNat s.stop), ("line", .ofNat s.line),
    ("column", .ofNat s.column)]

def Key.toJson : Key → Json
  | name s => .object [("name", .string s)]
  | computed id => .object [("computed", id.toJson)]

/-- A number that is not finite has no form in a document; `null` stands in its place. -/
def LiteralValue.toJson : LiteralValue → Json
  | string s => .object [("string", .string s)]
  | number x => .object [("number", if x.isFinite then .float x else .null)]
  | boolean b => .object [("boolean", .bool b)]
  | null => .string "null"
  | undefined => .string "undefined"

namespace Json

def ofNodes (ids : List NodeId) : Json := ofList NodeId.toJson ids

def ofOptionalNode (id : Option NodeId) : Json := ofOption NodeId.toJson id

end Json

namespace NodeKind

/-- The names of the kinds, in the order of their numbers. -/
def names : List String :=
  ["program", "block", "expressionStatement", "if", "while", "doWhile", "for", "return",
    "variableDeclaration", "variableDeclarator", "function", "classDeclaration",
    "interfaceDeclaration", "classMember", "sequence", "unary", "binary", "logical", "conditional",
    "assignment", "call", "new", "member", "chain", "identifier", "literal", "objectLiteral",
    "property", "arrayLiteral", "spread", "element", "attribute"]

def name : NodeKind → String
  | program _ => "program"
  | block _ => "block"
  | expressionStatement _ => "expressionStatement"
  | ifElse _ _ _ => "if"
  | whileLoop _ _ => "while"
  | doWhileLoop _ _ => "doWhile"
  | forLoop _ _ _ _ => "for"
  | returnStatement _ => "return"
  | variableDeclaration _ => "variableDeclaration"
  | variableDeclarator _ _ => "variableDeclarator"
  | function _ _ _ _ => "function"
  | classDeclaration _ _ _ => "classDeclaration"
  | interfaceDeclaration _ _ _ => "interfaceDeclaration"
  | classMember _ _ _ _ => "classMember"
  | sequence _ => "sequence"
  | unary _ _ => "unary"
  | binary _ _ _ => "binary"
  | logical _ _ _ => "logical"
  | conditional _ _ _ => "conditional"
  | assignment _ _ _ => "assignment"
  | call _ _ _ => "call"
  | construct _ _ => "new"
  | member _ _ _ => "member"
  | chain _ => "chain"
  | identifier _ => "identifier"
  | literal _ => "literal"
  | objectLiteral _ => "objectLiteral"
  | property _ _ _ => "property"
  | arrayLiteral _ => "arrayLiteral"
  | spread _ => "spread"
  | element _ _ _ => "element"
  | elementAttribute _ _ => "attribute"

def fields : NodeKind → List (String × Json)
  | program body => [("body", .ofNodes body)]
  | block body => [("body", .ofNodes body)]
  | expressionStatement expression => [("expression", expression.toJson)]
  | ifElse test consequent alternate =>
    [("test", test.toJson), ("consequent", consequent.toJson),
      ("alternate", .ofOptionalNode alternate)]
  | whileLoop test body => [("test", test.toJson), ("body", body.toJson)]
  | doWhileLoop body test => [("body", body.toJson), ("test", test.toJson)]
  | forLoop init test update body =>
    [("init", .ofOptionalNode init), ("test", .ofOptionalNode test),
      ("update", .ofOptionalNode update), ("body", body.toJson)]
  | returnStatement argument => [("argument", .ofOptionalNode argument)]
  | variableDeclaration declarators => [("declarators", .ofNodes declarators)]
  | variableDeclarator target init => [("id", target.toJson), ("init", .ofOptionalNode init)]
  | function form name params body =>
    [("function", .string form.name), ("name", .ofOption .string name),
      ("params", .ofNodes params), ("body", body.toJson)]
  | classDeclaration name heritage members =>
    [("name", .string name), ("heritage", .ofNodes heritage),
      ("members", .ofNodes members)]
  | interfaceDeclaration name heritage members =>
    [("name", .string name), ("heritage", .ofNodes heritage),
      ("members", .ofNodes members)]
  | classMember key form value isStatic =>
    [("key", key.toJson), ("member", .string form.name), ("value", .ofOptionalNode value),
      ("isStatic", .bool isStatic)]
  | sequence expressions => [("expressions", .ofNodes expressions)]
  | unary operator argument => [("operator", .string operator.name), ("argument", argument.toJson)]
  | binary operator left right =>
    [("operator", .string operator), ("left", left.toJson), ("right", right.toJson)]
  | logical operator left right =>
    [("operator", .string operator.name), ("left", left.toJson), ("right", right.toJson)]
  | conditional test consequent alternate =>
    [("test", test.toJson), ("consequent", consequent.toJson), ("alternate", alternate.toJson)]
  | assignment operator left right =>
    [("operator", .string operator), ("left", left.toJson), ("right", right.toJson)]
  | call callee arguments isOptional =>
    [("callee", callee.toJson), ("arguments", .ofNodes arguments),
      ("optional", .bool isOptional)]
  | construct callee arguments =>
    [("callee", callee.toJson), ("arguments", .ofOption Json.ofNodes arguments)]
  | member object key isOptional =>
    [("object", object.toJson), ("property", key.toJson), ("optional", .bool isOptional)]
  | chain expression => [("expression", expression.toJson)]
  | identifier name => [("name", .string name)]
  | literal value => [("value", value.toJson)]
  | objectLiteral properties => [("properties", .ofNodes properties)]
  | property key value form =>
    [("key", key.toJson), ("value", value.toJson), ("property", .string form.name)]
  | arrayLiteral elements => [("elements", .ofNodes elements)]
  | spread argument => [("argument", argument.toJson)]
  | element name attributes children =>
    [("name", .string name), ("attributes", .ofNodes attributes),
      ("children", .ofNodes children)]
  | elementAttribute name value => [("name", .string name), ("value", .ofOptionalNode value)]

end NodeKind

def Node.toJson (n : Node) : Json :=
  .object (("kind", .string n.kind.name) :: n.kind.fields
    ++ [("span", n.span.toJson)]
    ++ (n.type.map fun id => ("ty", id.toJson)).toList
    ++ (n.contextualType.map fun id => ("contextualType", id.toJson)).toList)

def Tree.toJson (t : Tree) : Json :=
  .object [("nodes", .ofList Node.toJson t.nodes.toList), ("root", t.root.toJson)]

/-! ### Reading -/

def Span.ofJson? (json : Json) : Option Span := do
  let r ← json.record ["start", "end", "line", "column"]
  return {
    start := ← r.required "start" (Json.natural (Nat.pow 2 64))
    stop := ← r.required "end" (Json.natural (Nat.pow 2 64))
    line := ← r.required "line" (Json.natural (Nat.pow 2 32))
    column := ← r.required "column" (Json.natural (Nat.pow 2 32)) }

def Key.ofJson? (json : Json) : Option Key :=
  match json.entry with
  | some ("name", value) => name <$> value.text
  | some ("computed", value) => computed <$> NodeId.ofJson? value
  | _ => none

/-- The number nearest to an integer. -/
def Binary64.ofInt (i : Int) : Binary64 :=
  if i < 0 then (ofNat i.natAbs).neg else ofNat i.natAbs

def Binary64.ofJson? : Json → Option Binary64
  | .integer i => some (ofInt i)
  | .float x => some x
  | _ => none

def LiteralValue.ofJson? (json : Json) : Option LiteralValue :=
  match json.choice, json.entry with
  | some "null", _ => some null
  | some "undefined", _ => some undefined
  | _, some ("string", value) => string <$> value.text
  | _, some ("number", value) => number <$> Binary64.ofJson? value
  | _, some ("boolean", value) => boolean <$> value.flag
  | _, _ => none

namespace Record

def node (r : Record) (name : String) : Option NodeId := r.required name NodeId.ofJson?

def node? (r : Record) (name : String) : Option (Option NodeId) := r.optional name NodeId.ofJson?

def nodes (r : Record) (name : String) : Option (List NodeId) :=
  r.required name (Json.list NodeId.ofJson?)

def text (r : Record) (name : String) : Option String := r.required name Json.text

def flag (r : Record) (name : String) : Option Bool := r.defaulted name Json.flag false

end Record

namespace NodeKind

/-- The kind of that name, from the fields of a node. -/
def ofFields? (name : String) (r : Record) : Option NodeKind :=
  match name with
  | "program" => return program (← r.nodes "body")
  | "block" => return block (← r.nodes "body")
  | "expressionStatement" => return expressionStatement (← r.node "expression")
  | "if" => return ifElse (← r.node "test") (← r.node "consequent") (← r.node? "alternate")
  | "while" => return whileLoop (← r.node "test") (← r.node "body")
  | "doWhile" => return doWhileLoop (← r.node "body") (← r.node "test")
  | "for" =>
    return forLoop (← r.node? "init") (← r.node? "test") (← r.node? "update") (← r.node "body")
  | "return" => return returnStatement (← r.node? "argument")
  | "variableDeclaration" => return variableDeclaration (← r.nodes "declarators")
  | "variableDeclarator" => return variableDeclarator (← r.node "id") (← r.node? "init")
  | "function" =>
    return function (← r.required "function" FunctionForm.ofJson?)
      (← r.optional "name" Json.text) (← r.nodes "params") (← r.node "body")
  | "classDeclaration" =>
    return classDeclaration (← r.text "name") (← r.nodes "heritage") (← r.nodes "members")
  | "interfaceDeclaration" =>
    return interfaceDeclaration (← r.text "name") (← r.nodes "heritage") (← r.nodes "members")
  | "classMember" =>
    return classMember (← r.required "key" Key.ofJson?)
      (← r.required "member" MemberForm.ofJson?) (← r.node? "value") (← r.flag "isStatic")
  | "sequence" => return sequence (← r.nodes "expressions")
  | "unary" => return unary (← r.required "operator" UnaryOp.ofJson?) (← r.node "argument")
  | "binary" => return binary (← r.text "operator") (← r.node "left") (← r.node "right")
  | "logical" =>
    return logical (← r.required "operator" LogicalOp.ofJson?) (← r.node "left")
      (← r.node "right")
  | "conditional" =>
    return conditional (← r.node "test") (← r.node "consequent") (← r.node "alternate")
  | "assignment" => return assignment (← r.text "operator") (← r.node "left") (← r.node "right")
  | "call" => return call (← r.node "callee") (← r.nodes "arguments") (← r.flag "optional")
  | "new" =>
    return construct (← r.node "callee")
      (← r.optional "arguments" (Json.list NodeId.ofJson?))
  | "member" =>
    return member (← r.node "object") (← r.required "property" Key.ofJson?) (← r.flag "optional")
  | "chain" => return chain (← r.node "expression")
  | "identifier" => return identifier (← r.text "name")
  | "literal" => return literal (← r.required "value" LiteralValue.ofJson?)
  | "objectLiteral" => return objectLiteral (← r.nodes "properties")
  | "property" =>
    return property (← r.required "key" Key.ofJson?) (← r.node "value")
      (← r.required "property" PropertyForm.ofJson?)
  | "arrayLiteral" => return arrayLiteral (← r.nodes "elements")
  | "spread" => return spread (← r.node "argument")
  | "element" =>
    return element (← r.text "name") (← r.nodes "attributes") (← r.nodes "children")
  | "attribute" => return elementAttribute (← r.text "name") (← r.node? "value")
  | _ => none

/-- The name of a kind that is given by name or by number. -/
def nameOfJson? : Json → Option String
  | .string s => some s
  | .integer i => if 0 ≤ i then names[i.toNat]? else none
  | _ => none

end NodeKind

namespace Node

/-- The fields of a node that do not belong to its kind. -/
def commonFields : List String := ["span", "ty", "contextualType"]

/-- Reads the parts of a node. -/
def ofRecord? (r : Record) : Option Node := do
  let name ← r.required "kind" NodeKind.nameOfJson?
  return {
    kind := ← NodeKind.ofFields? name r
    span := ← r.defaulted "span" Span.ofJson? {}
    type := ← r.optional "ty" TypeId.ofJson?
    contextualType := ← r.optional "contextualType" TypeId.ofJson? }

/-- A node is an object.  Fields that are passed over have to be sound as well, apart from those
inside its place. -/
def ofJson? : Json → Option Node
  | .object fields => do
    guard (Json.soundFields (fields.filter (·.1 ∉ commonFields)))
    ofRecord? (Json.values fields)
  | _ => none

end Node

def Tree.ofJson? (json : Json) : Option Tree := do
  let r ← json.record ["nodes", "root"]
  return {
    nodes := (← r.required "nodes" (Json.list Node.ofJson?)).toArray
    root := ← r.required "root" NodeId.ofJson? }

end ResultLint
