import ResultLint.Analysis.Shape
import ResultLint.Types.Apparent

/-!
# Result types

A type is judged by what it amounts to.  One of its apparent members is like a Result if its
discriminant can hold a marker under whose name it also has a property; where the type comes from
and what it is called play no part.
-/

namespace ResultLint

/-- Judges the types of a table by a shape. -/
structure Classifier where
  types : TypeTable
  shape : ResultShape

namespace Classifier

/-- The markers that a type can hold. -/
def markers (c : Classifier) (id : TypeId) : List String :=
  ((c.types.apparentMembers id).filterMap c.types.stringLiteral?).filter c.shape.isMarker

/-- An object with a discriminant that can hold a marker, and with a property of that name. -/
def isResultLike (c : Classifier) (member : TypeId) : Bool :=
  match c.types.property? member c.shape.discriminant with
  | none => false
  | some tag => (c.markers tag).any fun marker => (c.types.property? member marker).isSome

def isSometimesResult (c : Classifier) (id : TypeId) : Bool :=
  (c.types.apparentMembers id).any c.isResultLike

/-- A type that amounts to nothing is never a Result. -/
def isAlwaysResult (c : Classifier) (id : TypeId) : Bool :=
  let members := c.types.apparentMembers id
  !members.isEmpty && members.all c.isResultLike

/-- An array or tuple with an element that is sometimes a Result. -/
def isResultArrayOrTuple (c : Classifier) (id : TypeId) : Bool :=
  (c.types.apparentMembers id).any fun member =>
    (c.types.elementTypes member).any c.isSometimesResult

end Classifier

end ResultLint
