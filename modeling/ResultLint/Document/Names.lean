import ResultLint.Json.Record
import ResultLint.Tree.Kind
import ResultLint.Types.Basic

/-!
# Names in documents

The names under which operators and forms stand in a document.
-/

namespace ResultLint

def UnaryOp.all : List UnaryOp := [.void, .not, .bitNot, .minus, .plus, .typeof, .delete]

def UnaryOp.name : UnaryOp → String
  | void => "void"
  | not => "not"
  | bitNot => "bitNot"
  | minus => "minus"
  | plus => "plus"
  | typeof => "typeof"
  | delete => "delete"

def LogicalOp.all : List LogicalOp := [.and, .or, .nullish]

def LogicalOp.name : LogicalOp → String
  | and => "and"
  | or => "or"
  | nullish => "nullishCoalescing"

def PropertyForm.all : List PropertyForm := [.init, .shorthand, .method]

def PropertyForm.name : PropertyForm → String
  | init => "init"
  | shorthand => "shorthand"
  | method => "method"

def MemberForm.all : List MemberForm := [.method, .property, .signature]

def MemberForm.name : MemberForm → String
  | method => "method"
  | property => "property"
  | signature => "signature"

def FunctionForm.all : List FunctionForm := [.declaration, .expression, .arrow]

def FunctionForm.name : FunctionForm → String
  | declaration => "declaration"
  | expression => "expression"
  | arrow => "arrow"

/-- The one of `all` that a value names. -/
def Json.oneOf {α : Type} (all : List α) (name : α → String) (json : Json) : Option α :=
  json.choice.bind fun s => all.find? fun a => name a = s

def Primitive.ofJson? : Json → Option Primitive := Json.oneOf all name

def UnaryOp.ofJson? : Json → Option UnaryOp := Json.oneOf all name

def LogicalOp.ofJson? : Json → Option LogicalOp := Json.oneOf all name

def PropertyForm.ofJson? : Json → Option PropertyForm := Json.oneOf all name

def MemberForm.ofJson? : Json → Option MemberForm := Json.oneOf all name

def FunctionForm.ofJson? : Json → Option FunctionForm := Json.oneOf all name

/-- A number of a type or node has 32 bits. -/
def TypeId.ofJson? (json : Json) : Option TypeId := (json.natural (Nat.pow 2 32)).map TypeId.mk

def TypeId.toJson (id : TypeId) : Json := .ofNat id.index

@[inherit_doc TypeId.ofJson?]
def NodeId.ofJson? (json : Json) : Option NodeId := (json.natural (Nat.pow 2 32)).map NodeId.mk

def NodeId.toJson (id : NodeId) : Json := .ofNat id.index

end ResultLint
