import ResultLint.Rules.Misuse.Condition
import ResultLint.Types.Display

/-!
# Results where nothing is expected

A function that returns a Result is out of place where a function that returns nothing is expected:
as an argument, in a variable, as a property, as a returned value, as an attribute, or as a method
that a class inherits.
-/

namespace ResultLint

namespace Misuse

/-- The node returns a Result where the type expects a function that returns nothing. -/
def isMisplaced (c : Context) (expected : TypeId) (node : NodeId) : Bool :=
  c.classifier.isVoidReturning expected && c.returnsResult node

/-- The node returns a Result where its surroundings expect a function that returns nothing. -/
def isMisplacedInContext (c : Context) (node : NodeId) : Bool :=
  (c.program.contextualType? node).any fun expected => isMisplaced c expected node

def reportIf (c : Context) (condition : Bool) (kind : DiagnosticKind) (node : NodeId) :
    List Diagnostic :=
  if condition then [c.report info kind node] else []

/-! ### Arguments -/

/-- The arguments that return a Result where only nothing is expected. -/
def misplacedArguments (c : Context) (kind : CallKind) (callee : NodeId)
    (arguments : Option (List NodeId)) : List NodeId :=
  let positions :=
    c.classifier.voidArguments (c.program.typeAt callee) kind (arguments.map (·.length))
  ((arguments.getD []).zipIdx.filter fun (argument, position) =>
    position ∈ positions && c.returnsResult argument).map (·.1)

def checkArguments (c : Context) (kind : CallKind) (callee : NodeId)
    (arguments : Option (List NodeId)) : List Diagnostic :=
  (misplacedArguments c kind callee arguments).map (c.report info .voidReturnArgument)

/-! ### Variables -/

def checkAssignment (c : Context) (left right : NodeId) : List Diagnostic :=
  reportIf c (isMisplaced c (c.program.typeAt left) right) .voidReturnVariable right

def checkDeclarator (c : Context) (declarator : NodeId) : List Diagnostic :=
  match c.tree.kind? declarator with
  | some (.variableDeclarator target (some init)) => checkAssignment c target init
  | _ => []

/-! ### Properties -/

/-- A method is expected to be what the object around it is expected to have under its name. -/
def isMisplacedMethod (c : Context) (object : NodeId) (name : String) (method : NodeId) : Bool :=
  c.returnsResult method &&
    ((c.program.contextualType? object).bind fun type => c.apparentProperty? type name).any
      c.classifier.isVoidReturning

def isMisplacedProperty (c : Context) (object : NodeId) (key : Key) (value : NodeId) :
    PropertyForm → Bool
  | .init => isMisplacedInContext c value
  | .shorthand => isMisplacedInContext c value
  | .method => key.name?.any fun name => isMisplacedMethod c object name value

def checkProperty (c : Context) (object property : NodeId) : List Diagnostic :=
  match c.tree.kind? property with
  | some (.property key value form) =>
    reportIf c (isMisplacedProperty c object key value form) .voidReturnProperty value
  | _ => []

/-! ### Returned values and attributes -/

def checkReturn (c : Context) (argument : NodeId) : List Diagnostic :=
  reportIf c (isMisplacedInContext c argument) .voidReturnReturnValue argument

def isLiteral (c : Context) (node : NodeId) : Bool :=
  match c.tree.kind? node with
  | some (.literal _) => true
  | _ => false

/-- A literal is never a function. -/
def checkAttribute (c : Context) (attribute_ : NodeId) : List Diagnostic :=
  match c.tree.kind? attribute_ with
  | some (.elementAttribute _ (some value)) =>
    reportIf c (!isLiteral c value && isMisplacedInContext c value) .voidReturnAttribute value
  | _ => []

/-! ### Inherited methods -/

/-- The types in the heritage of a class or interface, each once. -/
def heritageTypes (c : Context) (heritage : List NodeId) : List TypeId :=
  (heritage.map c.program.typeAt).foldl (fun ids id => if id ∈ ids then ids else ids ++ [id]) []

/-- The type expects a method of that name to return nothing. -/
def expectsVoidMethod (c : Context) (name : String) (parent : TypeId) : Bool :=
  (c.apparentProperty? parent name).any c.classifier.isVoidReturning

def checkInherited (c : Context) (declaration member : NodeId) : List Diagnostic :=
  match (c.tree.kind? declaration).bind (·.classLike?), c.tree.kind? member with
  | some (heritage, _), some (.classMember (.name name) _ _ false) =>
    if c.returnsResult member then
      ((heritageTypes c heritage).filter (expectsVoidMethod c name)).map fun parent =>
        c.report info (.voidReturnInheritedMethod (c.program.types.display parent)) member
    else []
  | _, _ => []

end Misuse

end ResultLint
