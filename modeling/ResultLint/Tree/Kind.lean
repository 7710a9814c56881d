import ResultLint.Number.Binary64

/-!
# Kinds of nodes

The nodes of a program refer to each other by number, as its types do.  The kind of a node says what
it is in the source and which nodes are its parts; `NodeKind.children` lists them in source order.
-/

namespace ResultLint

/-- The number of a node in its tree. -/
structure NodeId where
  index : Nat
deriving DecidableEq, Repr, Inhabited

/-- The text of a node number in messages. -/
def NodeId.text (id : NodeId) : String := "#" ++ Nat.repr id.index

inductive UnaryOp where
  | void
  | not
  | bitNot
  | minus
  | plus
  | typeof
  | delete
deriving DecidableEq, Repr

inductive LogicalOp where
  | and
  | or
  | nullish
deriving DecidableEq, Repr

/-- The operator as it is written in the source. -/
def LogicalOp.text : LogicalOp → String
  | and => "&&"
  | or => "||"
  | nullish => "??"

/-- The key of a member access, a property or a class member. -/
inductive Key where
  | name (name : String)
  | computed (node : NodeId)
deriving DecidableEq, Repr

def Key.name? : Key → Option String
  | name s => some s
  | computed _ => none

def Key.node? : Key → Option NodeId
  | name _ => none
  | computed id => some id

/-- How a property of an object literal is written. -/
inductive PropertyForm where
  | init
  | shorthand
  | method
deriving DecidableEq, Repr

inductive MemberForm where
  | method
  | property
  | signature
deriving DecidableEq, Repr

inductive FunctionForm where
  | declaration
  | expression
  | arrow
deriving DecidableEq, Repr

inductive LiteralValue where
  | string (value : String)
  | number (value : Binary64)
  | boolean (value : Bool)
  | null
  | undefined
deriving DecidableEq, Repr

inductive NodeKind where
  | program (body : List NodeId)
  | block (body : List NodeId)
  | expressionStatement (expression : NodeId)
  | ifElse (test consequent : NodeId) (alternate : Option NodeId)
  | whileLoop (test body : NodeId)
  | doWhileLoop (body test : NodeId)
  | forLoop (init test update : Option NodeId) (body : NodeId)
  | returnStatement (argument : Option NodeId)
  | variableDeclaration (declarators : List NodeId)
  | variableDeclarator (target : NodeId) (init : Option NodeId)
  | function (form : FunctionForm) (name : Option String) (params : List NodeId) (body : NodeId)
  | classDeclaration (name : String) (heritage members : List NodeId)
  | interfaceDeclaration (name : String) (heritage members : List NodeId)
  | classMember (key : Key) (form : MemberForm) (value : Option NodeId) (isStatic : Bool)
  | sequence (expressions : List NodeId)
  | unary (operator : UnaryOp) (argument : NodeId)
  | binary (operator : String) (left right : NodeId)
  | logical (operator : LogicalOp) (left right : NodeId)
  | conditional (test consequent alternate : NodeId)
  | assignment (operator : String) (left right : NodeId)
  | call (callee : NodeId) (arguments : List NodeId) (isOptional : Bool)
  | construct (callee : NodeId) (arguments : Option (List NodeId))
  | member (object : NodeId) (key : Key) (isOptional : Bool)
  | chain (expression : NodeId)
  | identifier (name : String)
  | literal (value : LiteralValue)
  | objectLiteral (properties : List NodeId)
  | property (key : Key) (value : NodeId) (form : PropertyForm)
  | arrayLiteral (elements : List NodeId)
  | spread (argument : NodeId)
  | element (name : String) (attributes children : List NodeId)
  | elementAttribute (name : String) (value : Option NodeId)
deriving DecidableEq, Repr

/-- What a node counts as when a tree is visited.  The rest are parts of statements
and expressions. -/
inductive Category where
  | statement
  | expression
  | other
deriving DecidableEq, Repr

namespace NodeKind

/-- The parts of a node in source order. -/
def children : NodeKind → List NodeId
  | program body => body
  | block body => body
  | expressionStatement expression => [expression]
  | ifElse test consequent alternate => test :: consequent :: alternate.toList
  | whileLoop test body => [test, body]
  | doWhileLoop body test => [body, test]
  | forLoop init test update body => init.toList ++ test.toList ++ update.toList ++ [body]
  | returnStatement argument => argument.toList
  | variableDeclaration declarators => declarators
  | variableDeclarator target init => target :: init.toList
  | function _ _ params body => params ++ [body]
  | classDeclaration _ heritage members => heritage ++ members
  | interfaceDeclaration _ heritage members => heritage ++ members
  | classMember key _ value _ => key.node?.toList ++ value.toList
  | sequence expressions => expressions
  | unary _ argument => [argument]
  | binary _ left right => [left, right]
  | logical _ left right => [left, right]
  | conditional test consequent alternate => [test, consequent, alternate]
  | assignment _ left right => [left, right]
  | call callee arguments _ => callee :: arguments
  | construct callee arguments => callee :: arguments.getD []
  | member object key _ => object :: key.node?.toList
  | chain expression => [expression]
  | identifier _ => []
  | literal _ => []
  | objectLiteral properties => properties
  | property key value _ => key.node?.toList ++ [value]
  | arrayLiteral elements => elements
  | spread argument => [argument]
  | element _ attributes children => attributes ++ children
  | elementAttribute _ value => value.toList

def category : NodeKind → Category
  | block _ => .statement
  | expressionStatement _ => .statement
  | ifElse _ _ _ => .statement
  | whileLoop _ _ => .statement
  | doWhileLoop _ _ => .statement
  | forLoop _ _ _ _ => .statement
  | returnStatement _ => .statement
  | variableDeclaration _ => .statement
  | classDeclaration _ _ _ => .statement
  | interfaceDeclaration _ _ _ => .statement
  | function .declaration _ _ _ => .statement
  | program _ => .other
  | variableDeclarator _ _ => .other
  | classMember _ _ _ _ => .other
  | property _ _ _ => .other
  | spread _ => .other
  | elementAttribute _ _ => .other
  | _ => .expression

/-- The heritage and the members of a class or interface. -/
def classLike? : NodeKind → Option (List NodeId × List NodeId)
  | classDeclaration _ heritage members => some (heritage, members)
  | interfaceDeclaration _ heritage members => some (heritage, members)
  | _ => none

end NodeKind

end ResultLint
