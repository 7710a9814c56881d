import ResultLint.Analysis.Result

/-!
# Functions that return Results or nothing

A function type returns a Result if one of its signatures sometimes does.  It returns nothing if one
of its signatures returns `void` and none returns a Result.  `Classifier.voidArguments` finds the
arguments of a call for which only functions of the second sort are expected.
-/

namespace ResultLint

/-- Which signatures a call goes by. -/
inductive CallKind where
  | call
  | construct
deriving DecidableEq, Repr

namespace TypeTable

def signatures (t : TypeTable) : CallKind → TypeId → List Signature
  | .call, id => t.callSignatures id
  | .construct, id => t.constructSignatures id

/-- The type that a rest parameter of that type has for the `i`-th of its arguments. -/
def restType? (t : TypeTable) (id : TypeId) (i : Nat) : Option TypeId :=
  match t.resolve (t.apparentType id) with
  | .array element => some element
  | .tuple elements => elements[i]?
  | _ => none

/-- The type that the parameter at an index offers for the argument at a position, in a call with
`count` arguments. -/
def parameterOffer? (t : TypeTable) (count position index : Nat) (p : Parameter) : Option TypeId :=
  if p.rest then
    if index ≤ position ∧ position < count then t.restType? p.type (position - index) else none
  else if position = index then some p.type
  else none

/-- The types that a signature offers for the argument at a position. -/
def signatureOffers (t : TypeTable) (count position : Nat) (s : Signature) : List TypeId :=
  s.params.zipIdx.filterMap fun (p, index) => t.parameterOffer? count position index p

/-- The signatures of that kind of all that a type amounts to. -/
def apparentSignatures (t : TypeTable) (kind : CallKind) (callee : TypeId) : List Signature :=
  (t.apparentMembers callee).flatMap (t.signatures kind)

end TypeTable

namespace Classifier

/-- The call signatures of all that a type amounts to. -/
def callSignatures (c : Classifier) (id : TypeId) : List Signature :=
  c.types.apparentSignatures .call id

def isResultReturning (c : Classifier) (id : TypeId) : Bool :=
  (c.callSignatures id).any fun s => c.isSometimesResult s.returnType

def isVoidReturning (c : Classifier) (id : TypeId) : Bool :=
  let signatures := c.callSignatures id
  (signatures.any fun s => c.types.isVoid s.returnType) &&
    !signatures.any fun s => c.isSometimesResult s.returnType

/-- Among the types is one that returns nothing and none that returns a Result. -/
def expectsVoid (c : Classifier) (types : List TypeId) : Bool :=
  types.any c.isVoidReturning && !types.any c.isResultReturning

/-- The positions for which the parameter at an index offers a function that returns nothing are
below this number.  Only an array offers one for all arguments. -/
def parameterReach (c : Classifier) (count index : Nat) (p : Parameter) : Nat :=
  if p.rest then
    match c.types.resolve (c.types.apparentType p.type) with
    | .array element => if c.isVoidReturning element then count else 0
    | .tuple elements => min count (index + elements.length)
    | _ => 0
  else index + 1

@[inherit_doc parameterReach]
def signatureReach (c : Classifier) (count : Nat) (s : Signature) : Nat :=
  (s.params.zipIdx.map fun (p, index) => c.parameterReach count index p).foldl max 0

/-- The positions of arguments for which only functions that return nothing are expected, in
ascending order.  There are none if the call has no list of arguments. -/
def voidArguments (c : Classifier) (callee : TypeId) (kind : CallKind) (count : Option Nat) :
    List Nat :=
  match count with
  | none => []
  | some count =>
    let signatures := c.types.apparentSignatures kind callee
    let reach := (signatures.map (c.signatureReach count)).foldl max 0
    (List.range reach).filter fun position =>
      c.expectsVoid (signatures.flatMap (c.types.signatureOffers count position))

end Classifier

end ResultLint
