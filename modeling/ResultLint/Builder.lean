import ResultLint.Analysis.Shape
import ResultLint.Program.Basic

/-!
# Building programs

A program is put together node by node, parts first, together with the types it needs.  Where the
type of a node follows from its parts, it is filled in.
-/

namespace ResultLint

/-- A program in the making. -/
structure Builder where
  types : TypeTable := .primitives
  nodes : Array Node := #[]
deriving Repr, Inhabited

namespace Builder

def get? (b : Builder) (id : NodeId) : Option Node := b.nodes[id.index]?

/-- The type of a node, `unknown` where none is given. -/
def typeOf (b : Builder) (id : NodeId) : TypeId := ((b.get? id).bind (·.type)).getD .unknown

/-- Changes a node; a missing one is left alone. -/
def changeNode (b : Builder) (id : NodeId) (f : Node → Node) : Builder :=
  { b with nodes := b.nodes.modify id.index f }

/-- Adds a node. -/
def addNode (b : Builder) (kind : NodeKind) (type : Option TypeId) : NodeId × Builder :=
  (⟨b.nodes.size⟩, { b with nodes := b.nodes.push { kind, type } })

/-- The program with the given statements. -/
def finish (b : Builder) (body : List NodeId) : Program :=
  let (root, b) := b.addNode (.program body) none
  ⟨b.types, ⟨b.nodes, root⟩⟩

end Builder

/-- Steps in the making of a program. -/
abbrev Build := StateM Builder

namespace Build

def node (kind : NodeKind) (type : Option TypeId) : Build NodeId := fun b => b.addNode kind type

/-- A step of the type table. -/
def type (make : TypeTable → TypeId × TypeTable) : Build TypeId := fun b =>
  let (id, types) := make b.types
  (id, { b with types })

def typeOf (id : NodeId) : Build TypeId := fun b => (b.typeOf id, b)

def changeNode (id : NodeId) (f : Node → Node) : Build Unit := fun b => ((), b.changeNode id f)

def setType (id : NodeId) (type : TypeId) : Build Unit :=
  changeNode id fun n => { n with type := some type }

def setContextualType (id : NodeId) (type : TypeId) : Build Unit :=
  changeNode id fun n => { n with contextualType := some type }

def setSpan (id : NodeId) (span : Span) : Build Unit := changeNode id fun n => { n with span }

/-- Moves a node to the beginning of a line. -/
def atLine (id : NodeId) (line : Nat) : Build NodeId := do
  changeNode id fun n => { n with span := ⟨n.span.start, n.span.start, line, 1⟩ }
  return id

/-! ### Result types -/

/-- The case of a Result with that marker and payload. -/
def resultCase (shape : ResultShape) (marker : String) (payload : TypeId) : Build TypeId := do
  let tag ← type (·.stringLiteral marker)
  type (·.object { properties := [⟨shape.discriminant, tag⟩, ⟨marker, payload⟩] })

def resultType (shape : ResultShape) (success failure : TypeId) : Build TypeId := do
  let ok ← resultCase shape shape.success success
  let err ← resultCase shape shape.failure failure
  type (·.union [ok, err])

/-! ### Expressions -/

def identifier (name : String) (type : TypeId) : Build NodeId := node (.identifier name) type

def literal (value : LiteralValue) (type : TypeId) : Build NodeId := node (.literal value) type

def string (s : String) : Build NodeId := do literal (.string s) (← type (·.stringLiteral s))

def number (x : Binary64) : Build NodeId := do literal (.number x) (← type (·.numberLiteral x))

def boolean (b : Bool) : Build NodeId := do literal (.boolean b) (← type (·.booleanLiteral b))

def call (callee : NodeId) (arguments : List NodeId) (type : TypeId) : Build NodeId :=
  node (.call callee arguments false) type

def optionalCall (callee : NodeId) (arguments : List NodeId) (type : TypeId) : Build NodeId :=
  node (.call callee arguments true) type

def construct (callee : NodeId) (arguments : Option (List NodeId)) (type : TypeId) :
    Build NodeId :=
  node (.construct callee arguments) type

def member (object : NodeId) (name : String) (type : TypeId) : Build NodeId :=
  node (.member object (.name name) false) type

def optionalMember (object : NodeId) (name : String) (type : TypeId) : Build NodeId :=
  node (.member object (.name name) true) type

def computedMember (object key : NodeId) (type : TypeId) : Build NodeId :=
  node (.member object (.computed key) false) type

def chain (expression : NodeId) : Build NodeId := do
  node (.chain expression) (← typeOf expression)

/-- A sequence has the type of its last expression. -/
def sequence (expressions : List NodeId) : Build NodeId :=
  match expressions.getLast? with
  | none => node (.sequence expressions) TypeId.undefined
  | some last => do node (.sequence expressions) (← typeOf last)

def unary (operator : UnaryOp) (argument : NodeId) (type : TypeId) : Build NodeId :=
  node (.unary operator argument) type

def void (argument : NodeId) : Build NodeId := unary .void argument .undefined

def not (argument : NodeId) : Build NodeId := unary .not argument .boolean

def binary (operator : String) (left right : NodeId) (type : TypeId) : Build NodeId :=
  node (.binary operator left right) type

def logical (operator : LogicalOp) (left right : NodeId) (type : TypeId) : Build NodeId :=
  node (.logical operator left right) type

def conditional (test consequent alternate : NodeId) (type : TypeId) : Build NodeId :=
  node (.conditional test consequent alternate) type

/-- An assignment has the type of its right side. -/
def assign (left right : NodeId) : Build NodeId := do
  node (.assignment "=" left right) (← typeOf right)

def object (properties : List NodeId) (type : TypeId) : Build NodeId :=
  node (.objectLiteral properties) type

def property (name : String) (value : NodeId) : Build NodeId :=
  node (.property (.name name) value .init) none

def computedProperty (key value : NodeId) (form : PropertyForm) : Build NodeId :=
  node (.property (.computed key) value form) none

def shorthand (name : String) (value : NodeId) : Build NodeId :=
  node (.property (.name name) value .shorthand) none

def method (name : String) (function : NodeId) : Build NodeId := do
  node (.property (.name name) function .method) (← typeOf function)

def array (elements : List NodeId) (type : TypeId) : Build NodeId :=
  node (.arrayLiteral elements) type

def spread (argument : NodeId) : Build NodeId := do node (.spread argument) (← typeOf argument)

def arrow (params : List NodeId) (body : NodeId) (type : TypeId) : Build NodeId :=
  node (.function .arrow none params body) type

def functionExpression (params : List NodeId) (body : NodeId) (type : TypeId) : Build NodeId :=
  node (.function .expression none params body) type

def element (name : String) (attributes children : List NodeId) : Build NodeId :=
  node (.element name attributes children) none

def elementAttribute (name : String) (value : Option NodeId) : Build NodeId :=
  node (.elementAttribute name value) none

/-! ### Statements -/

def expressionStatement (expression : NodeId) : Build NodeId :=
  node (.expressionStatement expression) none

def block (body : List NodeId) : Build NodeId := node (.block body) none

def ifElse (test consequent : NodeId) (alternate : Option NodeId) : Build NodeId :=
  node (.ifElse test consequent alternate) none

def whileLoop (test body : NodeId) : Build NodeId := node (.whileLoop test body) none

def doWhileLoop (body test : NodeId) : Build NodeId := node (.doWhileLoop body test) none

def forLoop (init test update : Option NodeId) (body : NodeId) : Build NodeId :=
  node (.forLoop init test update body) none

def returnStatement (argument : Option NodeId) : Build NodeId :=
  node (.returnStatement argument) none

def variableDeclaration (declarators : List NodeId) : Build NodeId :=
  node (.variableDeclaration declarators) none

def declarator (target : NodeId) (init : Option NodeId) : Build NodeId := do
  node (.variableDeclarator target init) (← typeOf target)

def functionDeclaration (name : String) (params : List NodeId) (body : NodeId) (type : TypeId) :
    Build NodeId :=
  node (.function .declaration name params body) type

def classDeclaration (name : String) (heritage members : List NodeId) (type : TypeId) :
    Build NodeId :=
  node (.classDeclaration name heritage members) type

def interfaceDeclaration (name : String) (heritage members : List NodeId) (type : TypeId) :
    Build NodeId :=
  node (.interfaceDeclaration name heritage members) type

def classMember (key : Key) (form : MemberForm) (value : Option NodeId) (isStatic : Bool)
    (type : TypeId) : Build NodeId :=
  node (.classMember key form value isStatic) type

def methodMember (name : String) (function : NodeId) : Build NodeId := do
  classMember (.name name) .method (some function) false (← typeOf function)

def signatureMember (name : String) (type : TypeId) : Build NodeId :=
  classMember (.name name) .signature none false type

end Build

end ResultLint
