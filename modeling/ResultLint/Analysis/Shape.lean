/-!
# The shape of a Result

A Result is an object that says which of two cases it is: its discriminant holds a marker, and a
property with the name of the marker holds the payload.
-/

namespace ResultLint

structure ResultShape where
  discriminant : String := "tag"
  success : String := "success"
  failure : String := "failure"
deriving DecidableEq, Repr, Inhabited

def ResultShape.isMarker (shape : ResultShape) (s : String) : Bool :=
  s = shape.success || s = shape.failure

end ResultLint
