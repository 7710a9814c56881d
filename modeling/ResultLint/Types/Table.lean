import ResultLint.Types.Basic
import ResultLint.Number.Text

/-!
# Type tables

A table lists types by number.  Numbers outside the table stand for `unknown`.  `TypeTable.intern`
gives a type its number, adding it only when it is new; of equal entries, which a table that was
read may hold, the last one counts.
-/

namespace ResultLint

structure TypeTable where
  entries : Array Ty
deriving DecidableEq, Repr

namespace TypeTable

/-- The table of the primitives. -/
def primitives : TypeTable := ⟨(Primitive.all.map Ty.primitive).toArray⟩

instance : Inhabited TypeTable := ⟨primitives⟩

def size (t : TypeTable) : Nat := t.entries.size

def contains (t : TypeTable) (id : TypeId) : Bool := id.index < t.size

def get? (t : TypeTable) (id : TypeId) : Option Ty := t.entries[id.index]?

/-- The type of that number, `unknown` outside the table. -/
def resolve (t : TypeTable) (id : TypeId) : Ty := (t.get? id).getD (.primitive .unknown)

/-- The numbers of the table. -/
def ids (t : TypeTable) : List TypeId := (List.range t.size).map TypeId.mk

/-- The last number with that type. -/
def idOf? (t : TypeTable) (ty : Ty) : Option TypeId :=
  t.ids.reverse.find? fun id => t.get? id = some ty

/-- The number of a type, and the table that has it. -/
def intern (t : TypeTable) (ty : Ty) : TypeId × TypeTable :=
  match t.idOf? ty with
  | some id => (id, t)
  | none => (⟨t.size⟩, ⟨t.entries.push ty⟩)

/-! ### Making types -/

def stringLiteral (t : TypeTable) (s : String) : TypeId × TypeTable :=
  t.intern (.literal (.string s))

def numberLiteral (t : TypeTable) (x : Binary64) : TypeId × TypeTable :=
  t.intern (.literal (.number x.plainText))

def booleanLiteral (t : TypeTable) (b : Bool) : TypeId × TypeTable :=
  t.intern (.literal (.boolean b))

def object (t : TypeTable) (o : ObjectType) : TypeId × TypeTable := t.intern (.object o)

/-- The union of some types.  One type is its own union. -/
def union (t : TypeTable) (members : List TypeId) : TypeId × TypeTable :=
  match members with
  | [member] => (member, t)
  | members => t.intern (.union members)

def array (t : TypeTable) (element : TypeId) : TypeId × TypeTable := t.intern (.array element)

def tuple (t : TypeTable) (elements : List TypeId) : TypeId × TypeTable :=
  t.intern (.tuple elements)

/-- The function type with these call signatures. -/
def overloaded (t : TypeTable) (signatures : List Signature) : TypeId × TypeTable :=
  t.object { callSignatures := signatures }

def function (t : TypeTable) (params : List Parameter) (returnType : TypeId) :
    TypeId × TypeTable :=
  t.overloaded [⟨params, returnType⟩]

def parameter (t : TypeTable) (name : String) (constraint : Option TypeId) :
    TypeId × TypeTable :=
  t.intern (.parameter name constraint)

/-! ### Questions about one entry -/

def object? (t : TypeTable) (id : TypeId) : Option ObjectType :=
  match t.resolve id with
  | .object o => some o
  | _ => none

def property? (t : TypeTable) (id : TypeId) (name : String) : Option TypeId :=
  (t.object? id).bind (·.property? name)

def callSignatures (t : TypeTable) (id : TypeId) : List Signature :=
  ((t.object? id).map (·.callSignatures)).getD []

def constructSignatures (t : TypeTable) (id : TypeId) : List Signature :=
  ((t.object? id).map (·.constructSignatures)).getD []

def stringLiteral? (t : TypeTable) (id : TypeId) : Option String :=
  match t.resolve id with
  | .literal (.string s) => some s
  | _ => none

def isVoid (t : TypeTable) (id : TypeId) : Bool :=
  t.resolve id = .primitive .void

def isArray (t : TypeTable) (id : TypeId) : Bool :=
  match t.resolve id with
  | .array _ => true
  | _ => false

def isTuple (t : TypeTable) (id : TypeId) : Bool :=
  match t.resolve id with
  | .tuple _ => true
  | _ => false

/-- The element types of an array or tuple. -/
def elementTypes (t : TypeTable) (id : TypeId) : List TypeId :=
  match t.resolve id with
  | .array element => [element]
  | .tuple elements => elements
  | _ => []

end TypeTable

end ResultLint
