/-!
# Types

The types of a program refer to each other by number.  The numbers belong to a table, so a type by
itself is only one layer: its own form, and the numbers of its parts.
-/

namespace ResultLint

/-- The number of a type in its table. -/
structure TypeId where
  index : Nat
deriving DecidableEq, Repr, Inhabited

inductive Primitive where
  | any
  | unknown
  | never
  | void
  | undefined
  | null
  | boolean
  | number
  | string
deriving DecidableEq, Repr

namespace Primitive

/-- Every table starts with the primitives in this order. -/
def all : List Primitive :=
  [any, unknown, never, void, undefined, null, boolean, number, string]

def name : Primitive → String
  | any => "any"
  | unknown => "unknown"
  | never => "never"
  | void => "void"
  | undefined => "undefined"
  | null => "null"
  | boolean => "boolean"
  | number => "number"
  | string => "string"

def ofName? (s : String) : Option Primitive := all.find? (·.name = s)

/-- The number of the primitive in every table. -/
def id : Primitive → TypeId
  | any => ⟨0⟩
  | unknown => ⟨1⟩
  | never => ⟨2⟩
  | void => ⟨3⟩
  | undefined => ⟨4⟩
  | null => ⟨5⟩
  | boolean => ⟨6⟩
  | number => ⟨7⟩
  | string => ⟨8⟩

end Primitive

namespace TypeId

instance : Hashable TypeId := ⟨fun id => hash id.index⟩

def unknown : TypeId := Primitive.unknown.id

def undefined : TypeId := Primitive.undefined.id

def boolean : TypeId := Primitive.boolean.id

/-- The text of a type number in messages. -/
def text (id : TypeId) : String := "TypeId(" ++ Nat.repr id.index ++ ")"

end TypeId

/-- A literal type.  A number is kept as its text. -/
inductive LiteralType where
  | string (value : String)
  | number (text : String)
  | boolean (value : Bool)
deriving DecidableEq, Repr

def LiteralType.text : LiteralType → String
  | string s => "\"" ++ s ++ "\""
  | number s => s
  | boolean true => "true"
  | boolean false => "false"

/-- A parameter of a signature.  The type of a rest parameter is the array or tuple that takes the
remaining arguments. -/
structure Parameter where
  name : String
  type : TypeId
  rest : Bool := false
deriving DecidableEq, Repr

structure Signature where
  params : List Parameter
  returnType : TypeId
deriving DecidableEq, Repr

structure Property where
  name : String
  type : TypeId
deriving DecidableEq, Repr

/-- An object, function or class type, with a name if it was declared under one. -/
structure ObjectType where
  name : Option String := none
  properties : List Property := []
  callSignatures : List Signature := []
  constructSignatures : List Signature := []
deriving DecidableEq, Repr

inductive Ty where
  | primitive (primitive : Primitive)
  | literal (literal : LiteralType)
  | object (object : ObjectType)
  | union (members : List TypeId)
  | array (element : TypeId)
  | tuple (elements : List TypeId)
  | parameter (name : String) (constraint : Option TypeId)
deriving DecidableEq, Repr

def Signature.references (s : Signature) : List TypeId :=
  s.params.map (·.type) ++ [s.returnType]

/-- The type of the first property of that name. -/
def ObjectType.property? (o : ObjectType) (name : String) : Option TypeId :=
  (o.properties.find? (·.name = name)).map (·.type)

def ObjectType.references (o : ObjectType) : List TypeId :=
  o.properties.map (·.type) ++ (o.callSignatures ++ o.constructSignatures).flatMap (·.references)

/-- The types that a type refers to directly. -/
def Ty.references : Ty → List TypeId
  | primitive _ => []
  | literal _ => []
  | object o => o.references
  | union members => members
  | array element => [element]
  | tuple elements => elements
  | parameter _ constraint => constraint.toList

def Ty.isUnion : Ty → Bool
  | union _ => true
  | _ => false

end ResultLint
