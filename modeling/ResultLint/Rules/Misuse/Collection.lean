import ResultLint.Rules.Misuse.Condition

/-!
# Results in collections

A Result is not meant to be spread into an object or array, and a function that returns one is no
predicate: an array would keep every element.
-/

namespace ResultLint

namespace Misuse

/-! ### Spreads -/

def spreadArgument? (c : Context) (entry : NodeId) : Option NodeId :=
  match c.tree.kind? entry with
  | some (.spread argument) => some argument
  | _ => none

/-- Checks the entries of an object or array literal. -/
def checkSpreads (c : Context) (entries : List NodeId) : List Diagnostic :=
  ((entries.filterMap (spreadArgument? c)).filter c.isSometimesResult).map (c.report info .spread)

/-! ### Predicates -/

/-- The methods of arrays that take their argument for a predicate. -/
def predicateMethods : List String :=
  ["filter", "find", "findIndex", "findLast", "findLastIndex", "some", "every"]

/-- The name that a key is known to have. -/
def staticName? (c : Context) : Key → Option String
  | .name name => some name
  | .computed key =>
    match c.tree.kind? key with
    | none => none
    | some (.literal (.string value)) => some value
    | some _ => c.program.types.stringLiteral? (c.program.typeAt key)

/-- The type amounts to an array or tuple, among others. -/
def isSometimesArrayOrTuple (c : Context) (id : TypeId) : Bool :=
  (c.apparentMembers id).any fun member =>
    c.program.types.isArray member || c.program.types.isTuple member

/-- The callee is a method of an array that takes a predicate. -/
def isPredicateMethod (c : Context) (callee : NodeId) : Bool :=
  match c.tree.kind? (c.tree.skipChain callee) with
  | some (.member object key _) =>
    (staticName? c key).any (· ∈ predicateMethods)
      && isSometimesArrayOrTuple c (c.program.typeAt object)
  | _ => false

def checkPredicate (c : Context) (callee : NodeId) (arguments : List NodeId) : List Diagnostic :=
  match arguments with
  | [] => []
  | predicate :: _ =>
    if isPredicateMethod c callee && c.returnsResult predicate then
      [c.report info .predicate predicate]
    else []

end Misuse

end ResultLint
