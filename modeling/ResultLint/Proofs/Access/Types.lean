import ResultLint.Proofs.Containment
import ResultLint.Proofs.Unfolding
import ResultLint.Types.Display

/-!
# Looking types up

`Access` is all that a run may know of a program: it looks nodes and types up by number and goes
from a node to a part of it.  A lookup gives the node or type itself and not a substitute for a
missing one; what happens to a number out of range, or on a step that does not lead down, is up to
the monad.  So a run over an `Access` that fails there fails as soon as it looks for something that
is not there.

Here are the questions about types, asked through an `Access`.  Lists are gone through to their
ends, also where the answer is known before, so that a run looks up whatever it could look up in
another order.  Walks over types that may be cyclic carry the numbers that they have not been at;
no number of steps is set for them.

* `Serves`: the lookups answer for the nodes below the root and the types of a valid program.
* `apparentType_eq`, `unionMembers_eq`, `apparentMembers_eq`: **the walks find what they find in the
  table**, and come to an end.
* `isVoidReturning_eq`, `voidArguments_eq`, `display_eq` and the like: so do the other questions.
-/

namespace ResultLint

open Relation (ReflTransGen TransGen)

/-- How a run gets at a program. -/
structure Access (m : Type → Type) where
  root : NodeId
  /-- The numbers of the types. -/
  typeIds : List TypeId
  node : NodeId → m Node
  type : TypeId → m Ty
  /-- Goes from a node to a part of it, which has a smaller number. -/
  descend : (whole part : NodeId) → m (PLift (part.index < whole.index))

namespace Access

variable {m : Type → Type} [Monad m] {α β : Type}

/-! ## Lists -/

def anyOf (l : List α) (f : α → m Bool) : m Bool := return (← l.mapM f).any id

def allOf (l : List α) (f : α → m Bool) : m Bool := return (← l.mapM f).all id

def firstOf (l : List α) (f : α → m (Option β)) : m (Option β) := return (← l.mapM f).findSome? id

def joined (l : List α) (f : α → m (List β)) : m (List β) := return (← l.mapM f).flatten

def select (l : List α) (f : α → m Bool) : m (List α) :=
  joined l fun a => return if ← f a then [a] else []

section

variable [LawfulMonad m] {l : List α}

theorem mapM_eq_pure {f : α → m β} {g : α → β} (h : ∀ x ∈ l, f x = pure (g x)) :
    l.mapM f = pure (l.map g) := by
  induction l with
  | nil => simp
  | cons x l ih =>
    have hl : ∀ y ∈ l, f y = pure (g y) := fun y hy => h y (List.mem_cons_of_mem x hy)
    rw [List.mapM_cons, h x List.mem_cons_self, pure_bind, ih hl, pure_bind, List.map_cons]

theorem anyOf_eq_pure {f : α → m Bool} {g : α → Bool} (h : ∀ x ∈ l, f x = pure (g x)) :
    anyOf l f = pure (l.any g) := by
  rw [anyOf, mapM_eq_pure h, pure_bind, List.any_map, Function.id_comp]

theorem allOf_eq_pure {f : α → m Bool} {g : α → Bool} (h : ∀ x ∈ l, f x = pure (g x)) :
    allOf l f = pure (l.all g) := by
  rw [allOf, mapM_eq_pure h, pure_bind, List.all_map, Function.id_comp]

theorem firstOf_eq_pure {f : α → m (Option β)} {g : α → Option β}
    (h : ∀ x ∈ l, f x = pure (g x)) : firstOf l f = pure (l.findSome? g) := by
  rw [firstOf, mapM_eq_pure h, pure_bind, List.findSome?_map, Function.id_comp]

theorem joined_eq_pure {f : α → m (List β)} {g : α → List β} (h : ∀ x ∈ l, f x = pure (g x)) :
    joined l f = pure (l.flatMap g) := by
  rw [joined, mapM_eq_pure h, pure_bind, List.flatMap]

theorem select_eq_pure {f : α → m Bool} {g : α → Bool} (h : ∀ x ∈ l, f x = pure (g x)) :
    select l f = pure (l.filter g) := by
  have hx : ∀ x ∈ l, (do return if ← f x then [x] else []) =
      (pure (if g x then [x] else []) : m (List α)) := by
    intro x hx
    rw [h x hx, pure_bind]
  rw [select, joined_eq_pure hx]
  congr 1
  induction l with
  | nil => rfl
  | cons x l ih =>
    have hl := ih (fun y hy => h y (List.mem_cons_of_mem x hy))
      fun y hy => hx y (List.mem_cons_of_mem x hy)
    rw [List.flatMap_cons, hl, List.filter_cons]
    split <;> rfl

end

/-! ## Questions -/

variable (a : Access m)

/-- What the entry of a number has to say. -/
def read (id : TypeId) (f : Ty → α) : m α := return f (← a.type id)

def object? (id : TypeId) : m (Option ObjectType) :=
  a.read id fun
    | .object o => some o
    | _ => none

def property? (id : TypeId) (name : String) : m (Option TypeId) :=
  return (← a.object? id).bind (·.property? name)

def signatures (kind : CallKind) (id : TypeId) : m (List Signature) := do
  let o ← a.object? id
  match kind with
  | .call => return (o.map (·.callSignatures)).getD []
  | .construct => return (o.map (·.constructSignatures)).getD []

def stringLiteral? (id : TypeId) : m (Option String) :=
  a.read id fun
    | .literal (.string s) => some s
    | _ => none

def isVoid (id : TypeId) : m Bool := a.read id (· = .primitive .void)

def isArrayOrTuple (id : TypeId) : m Bool :=
  a.read id fun
    | .array _ => true
    | .tuple _ => true
    | _ => false

def elementTypes (id : TypeId) : m (List TypeId) :=
  a.read id fun
    | .array element => [element]
    | .tuple elements => elements
    | _ => []

def union? (id : TypeId) : m (Option (List TypeId)) :=
  a.read id fun
    | .union members => some members
    | _ => none

/-! ### Walks -/

/-- The end of the chain of constraints from `id`.  A parameter that is met again is no longer
fresh. -/
def followConstraints (fresh : List TypeId) (id : TypeId) : m TypeId := do
  match ← a.type id with
  | .parameter _ none => return .unknown
  | .parameter _ (some constraint) =>
    if id ∈ fresh then followConstraints (Expansion.without fresh id) constraint
    else return .unknown
  | _ => return id
termination_by fresh.length
decreasing_by exact Expansion.length_without_lt ‹_›

def apparentType (id : TypeId) : m TypeId := a.followConstraints a.typeIds id

/-- The expansion of a worklist, as `Expansion.expand` says. -/
def expand (opens : TypeId → m Bool) (parts : TypeId → m (List TypeId)) (fresh : List TypeId) :
    List TypeId → m (List TypeId)
  | [] => return []
  | id :: rest => do
    if ← opens id then
      if id ∈ fresh then
        let inner ← parts id
        expand opens parts (Expansion.without fresh id) (inner ++ rest)
      else expand opens parts fresh rest
    else
      let found ← expand opens parts fresh rest
      return id :: found
termination_by work => (fresh.length, work.length)
decreasing_by
  · exact Prod.Lex.left _ _ (Expansion.length_without_lt ‹_›)
  · exact Prod.Lex.right _ (by simp)
  · exact Prod.Lex.right _ (by simp)

def unionMembers (id : TypeId) : m (List TypeId) :=
  expand (fun id => return (← a.union? id).isSome) (fun id => return (← a.union? id).getD [])
    a.typeIds [id]

def apparentMembers (id : TypeId) : m (List TypeId) := do
  let members ← a.unionMembers (← a.apparentType id)
  expand (fun id => return (← a.apparentType id) ≠ id)
    (fun id => do a.unionMembers (← a.apparentType id)) (Expansion.without a.typeIds id) members

/-! ### Results and functions -/

section

variable (shape : ResultShape)

def isResultLike (id : TypeId) : m Bool := do
  match ← a.property? id shape.discriminant with
  | none => return false
  | some tag =>
    let markers := ((← (← a.apparentMembers tag).mapM a.stringLiteral?).filterMap
      fun text => text).filter shape.isMarker
    anyOf markers fun marker => return (← a.property? id marker).isSome

def isSometimesResult (id : TypeId) : m Bool := do
  anyOf (← a.apparentMembers id) (a.isResultLike shape)

def isAlwaysResult (id : TypeId) : m Bool := do
  let members ← a.apparentMembers id
  return !members.isEmpty && (← allOf members (a.isResultLike shape))

def isResultArrayOrTuple (id : TypeId) : m Bool := do
  anyOf (← a.apparentMembers id) fun member => do
    anyOf (← a.elementTypes member) (a.isSometimesResult shape)

def apparentSignatures (kind : CallKind) (callee : TypeId) : m (List Signature) := do
  joined (← a.apparentMembers callee) (a.signatures kind)

def isResultReturning (id : TypeId) : m Bool := do
  anyOf (← a.apparentSignatures .call id) fun s => a.isSometimesResult shape s.returnType

def isVoidReturning (id : TypeId) : m Bool := do
  let signatures ← a.apparentSignatures .call id
  let void ← anyOf signatures fun s => a.isVoid s.returnType
  let result ← anyOf signatures fun s => a.isSometimesResult shape s.returnType
  return void && !result

def expectsVoid (types : List TypeId) : m Bool := do
  let void ← anyOf types (a.isVoidReturning shape)
  let result ← anyOf types (a.isResultReturning shape)
  return void && !result

def restType? (id : TypeId) (i : Nat) : m (Option TypeId) := do
  a.read (← a.apparentType id) fun
    | .array element => some element
    | .tuple elements => elements[i]?
    | _ => none

def parameterOffer? (count position index : Nat) (p : Parameter) : m (Option TypeId) := do
  if p.rest then
    let type ← a.restType? p.type (position - index)
    return if index ≤ position ∧ position < count then type else none
  else return if position = index then some p.type else none

def signatureOffers (count position : Nat) (s : Signature) : m (List TypeId) :=
  joined s.params.zipIdx fun (p, index) =>
    return (← a.parameterOffer? count position index p).toList

def parameterReach (count index : Nat) (p : Parameter) : m Nat := do
  if p.rest then
    match ← a.type (← a.apparentType p.type) with
    | .array element => return if ← a.isVoidReturning shape element then count else 0
    | .tuple elements => return min count (index + elements.length)
    | _ => return 0
  else return index + 1

def signatureReach (count : Nat) (s : Signature) : m Nat :=
  return (← s.params.zipIdx.mapM fun (p, index) => a.parameterReach shape count index p).foldl max 0

def voidArguments (callee : TypeId) (kind : CallKind) (count : Option Nat) : m (List Nat) := do
  match count with
  | none => return []
  | some count =>
    let signatures ← a.apparentSignatures kind callee
    let reach := (← signatures.mapM (a.signatureReach shape count)).foldl max 0
    select (List.range reach) fun position => do
      a.expectsVoid shape (← joined signatures (a.signatureOffers count position))

end

/-! ### Texts -/

section

open TypeTable (sequenceText)

variable (show_ : TypeId → m String)

def parameterText (p : Parameter) : m String :=
  return (if p.rest then "..." else "") ++ p.name ++ ": " ++ (← show_ p.type)

def signatureText (s : Signature) : m String := do
  let params ← s.params.mapM (parameterText show_)
  return "(" ++ sequenceText ", " params ++ ") => " ++ (← show_ s.returnType)

def propertyText (p : Property) : m String := return p.name ++ ": " ++ (← show_ p.type)

def objectText (o : ObjectType) : m String :=
  match o.properties, o.callSignatures with
  | [], [s] => signatureText show_ s
  | ps, ss => do
    let properties ← ps.mapM (propertyText show_)
    let signatures ← ss.mapM (signatureText show_)
    return "\x7b " ++ sequenceText "; " (properties ++ signatures) ++ " \x7d"

end

def textWithin : Nat → TypeId → m String
  | 0, _ => return "..."
  | depth + 1, id => do
    let show_ := textWithin depth
    match ← a.type id with
    | .primitive p => return p.name
    | .literal l => return l.text
    | .object o =>
      match o.name with
      | some name => return name
      | none => objectText show_ o
    | .union members => return TypeTable.sequenceText " | " (← members.mapM show_)
    | .array element =>
      let text ← show_ element
      return (if ← a.read element (·.isUnion) then "(" ++ text ++ ")" else text) ++ "[]"
    | .tuple elements => return "[" ++ TypeTable.sequenceText ", " (← elements.mapM show_) ++ "]"
    | .parameter name _ => return name

def display (id : TypeId) : m String := a.textWithin 9 id

/-! ## Answers -/

/-- The lookups answer for a valid program: for the nodes below its root, for its types, and for
steps that lead down.  Nothing is said about anything else. -/
structure Serves (a : Access m) (p : Program) : Prop where
  valid : p.Valid
  root : a.root = p.tree.root
  typeIds : a.typeIds = p.types.ids
  node : ∀ {id : NodeId} {node : Node}, p.tree.Reaches p.tree.root id →
    p.tree.get? id = some node → a.node id = pure node
  type : ∀ {id : TypeId} {ty : Ty}, p.types.get? id = some ty → a.type id = pure ty
  descend : ∀ {whole part : NodeId} (h : part.index < whole.index),
    a.descend whole part = pure ⟨h⟩

namespace Serves

variable [LawfulMonad m] {a : Access m} {p : Program} (h : a.Serves p)

include h

omit [LawfulMonad m] in
theorem type_eq {id : TypeId} (hid : p.types.contains id = true) :
    a.type id = pure (p.types.resolve id) := by
  obtain ⟨ty, hty⟩ := TypeTable.contains_iff.1 hid
  rw [h.type hty, TypeTable.resolve_of_get? hty]

theorem read_eq {id : TypeId} (hid : p.types.contains id = true) (f : Ty → α) :
    a.read id f = pure (f (p.types.resolve id)) := by
  rw [read, h.type_eq hid, pure_bind]

theorem object?_eq {id : TypeId} (hid : p.types.contains id = true) :
    a.object? id = pure (p.types.object? id) :=
  h.read_eq hid _

theorem stringLiteral?_eq {id : TypeId} (hid : p.types.contains id = true) :
    a.stringLiteral? id = pure (p.types.stringLiteral? id) :=
  h.read_eq hid _

theorem isVoid_eq {id : TypeId} (hid : p.types.contains id = true) :
    a.isVoid id = pure (p.types.isVoid id) :=
  h.read_eq hid _

theorem elementTypes_eq {id : TypeId} (hid : p.types.contains id = true) :
    a.elementTypes id = pure (p.types.elementTypes id) :=
  h.read_eq hid _

theorem isArrayOrTuple_eq {id : TypeId} (hid : p.types.contains id = true) :
    a.isArrayOrTuple id = pure (p.types.isArray id || p.types.isTuple id) := by
  rw [isArrayOrTuple, h.read_eq hid, TypeTable.isArray, TypeTable.isTuple]
  cases p.types.resolve id <;> rfl

theorem union?_eq {id : TypeId} (hid : p.types.contains id = true) :
    a.union? id = pure (p.types.union? id) := by
  obtain ⟨ty, hty⟩ := TypeTable.contains_iff.1 hid
  rw [union?, h.read_eq hid, TypeTable.resolve_of_get? hty, TypeTable.union?, hty]
  cases ty <;> rfl

theorem property?_eq {id : TypeId} (hid : p.types.contains id = true) (name : String) :
    a.property? id name = pure (p.types.property? id name) := by
  rw [property?, h.object?_eq hid, pure_bind, TypeTable.property?]

theorem signatures_eq {id : TypeId} (hid : p.types.contains id = true) (kind : CallKind) :
    a.signatures kind id = pure (p.types.signatures kind id) := by
  rw [signatures, h.object?_eq hid, pure_bind]
  cases kind <;> rfl

/-! ### The walks -/

/-- Numbers that are no longer fresh lie behind, on the chain to where the walk is. -/
theorem followConstraints_eq {fresh : List TypeId} {id : TypeId}
    (hid : p.types.contains id = true)
    (hbehind : ∀ x, p.types.contains x = true → x ∉ fresh → TransGen p.types.Constraint x id) :
    a.followConstraints fresh id = pure (p.types.apparentType id) := by
  induction hn : fresh.length using Nat.strongRecOn generalizing fresh id with
  | ind n ih =>
    obtain ⟨ty, hty⟩ := TypeTable.contains_iff.1 hid
    rw [followConstraints, h.type hty, pure_bind]
    cases ty with
    | parameter name constraint =>
      cases constraint with
      | none =>
        have hnowhere : p.types.LeadsNowhere id := Or.inl ⟨name, hty⟩
        rw [hnowhere.apparentType_eq]
      | some c =>
        have hstep : p.types.Constraint id c := ⟨name, hty⟩
        by_cases hf : id ∈ fresh
        · have hshorter := Expansion.length_without_lt hf
          have hc : p.types.contains c = true := h.valid.types.mentioned hty (.constraint name c)
          simp only [if_pos hf]
          rw [ih _ (hn ▸ hshorter) hc ?_ rfl, hstep.apparentType_eq]
          intro x hx hxf
          by_cases hxid : x = id
          · subst hxid
            exact .single hstep
          · have hxfresh : x ∉ fresh := fun hmem => hxf (Expansion.mem_without.2 ⟨hmem, hxid⟩)
            exact (hbehind x hx hxfresh).tail hstep
        · -- the walk is back at a parameter that it came from
          have hround : p.types.Circular id := ⟨id, .refl, hbehind id hid hf⟩
          simp only [if_neg hf]
          rw [hround.apparentType_eq]
    | _ => rw [TypeTable.apparentType_of_not_parameter hty rfl]

omit [LawfulMonad m] in
theorem mem_typeIds {id : TypeId} : id ∈ a.typeIds ↔ p.types.contains id = true := by
  rw [h.typeIds, TypeTable.mem_ids, TypeTable.contains_iff, Option.isSome_iff_exists]

theorem apparentType_eq {id : TypeId} (hid : p.types.contains id = true) :
    a.apparentType id = pure (p.types.apparentType id) := by
  apply h.followConstraints_eq hid
  intro x hx hxf
  exact absurd (h.mem_typeIds.2 hx) hxf

omit h in
/-- **Two expansions of a worklist agree** if the numbers that can be met open alike and are alike
fresh. -/
theorem expand_eq {e : Expansion} {opens : TypeId → m Bool} {parts : TypeId → m (List TypeId)}
    {S : TypeId → Prop} (hopens : ∀ id, S id → opens id = pure (e.opens id))
    (hparts : ∀ id, S id → e.opens id = true →
      parts id = pure (e.parts id) ∧ ∀ x ∈ e.parts id, S x)
    {fresh fresh' work : List TypeId} (hfresh : ∀ id, S id → (id ∈ fresh' ↔ id ∈ fresh))
    (hwork : ∀ id ∈ work, S id) :
    expand opens parts fresh' work = pure (e.expand fresh work) := by
  fun_induction Expansion.expand e fresh work generalizing fresh' with
  | case1 => rw [expand]
  | case2 fresh id rest hopen hf ih =>
    have hid : S id := hwork id List.mem_cons_self
    obtain ⟨hp, hmet⟩ := hparts id hid hopen
    rw [expand, hopens id hid, hopen, pure_bind, if_pos rfl, if_pos ((hfresh id hid).2 hf), hp,
      pure_bind]
    refine ih (fun x hx => ?_) (fun x hx => ?_)
    · rw [Expansion.mem_without, Expansion.mem_without, hfresh x hx]
    · rcases List.mem_append.1 hx with hx | hx
      · exact hmet x hx
      · exact hwork x (List.mem_cons_of_mem id hx)
  | case3 fresh id rest hopen hf ih =>
    have hid : S id := hwork id List.mem_cons_self
    rw [expand, hopens id hid, hopen, pure_bind, if_pos rfl, if_neg (mt (hfresh id hid).1 hf)]
    exact ih hfresh fun x hx => hwork x (List.mem_cons_of_mem id hx)
  | case4 fresh id rest hopen ih =>
    have hid : S id := hwork id List.mem_cons_self
    rw [expand, hopens id hid, pure_bind, if_neg hopen,
      ih hfresh fun x hx => hwork x (List.mem_cons_of_mem id hx), pure_bind]

theorem unionMembers_eq {id : TypeId} (hid : p.types.contains id = true) :
    a.unionMembers id = pure (p.types.unionMembers id) := by
  rw [unionMembers, TypeTable.unionMembers_eq_expand]
  apply expand_eq (S := fun x => p.types.contains x = true)
  · intro x hx
    rw [h.union?_eq hx, pure_bind]
    rfl
  · intro x hx _
    refine ⟨by rw [h.union?_eq hx, pure_bind]; rfl, fun y hy => ?_⟩
    have hpart : p.types.unions.Part p.types.ids x y :=
      ⟨‹_›, TypeTable.mem_ids.2 (Option.isSome_iff_exists.2 (TypeTable.contains_iff.1 hx)), hy⟩
    exact h.valid.types.contains_of_standsFor (Or.inl (TypeTable.unions_part_iff.1 hpart))
  · intro x _
    rw [h.typeIds]
  · intro x hx
    rwa [List.mem_singleton.1 hx]

theorem apparentMembers_eq {id : TypeId} (hid : p.types.contains id = true) :
    a.apparentMembers id = pure (p.types.apparentMembers id) := by
  have hparts : ∀ x, ∀ y ∈ p.types.unionMembers (p.types.apparentType x),
      p.types.contains y = true := fun x y hy =>
    h.valid.types.contains_of_mem_unionMembers (h.valid.types.contains_apparentType x) hy
  have hmembers : ∀ {x : TypeId}, p.types.contains x = true →
      (do a.unionMembers (← a.apparentType x)) =
        (pure (p.types.unionMembers (p.types.apparentType x)) : m (List TypeId)) := by
    intro x hx
    rw [h.apparentType_eq hx, pure_bind,
      h.unionMembers_eq (h.valid.types.contains_apparentType x)]
  rw [apparentMembers, ← bind_assoc, hmembers hid, pure_bind,
    TypeTable.apparentMembers_eq_expand]
  apply expand_eq (S := fun x => p.types.contains x = true)
  · intro x hx
    rw [h.apparentType_eq hx, pure_bind]
    rfl
  · intro x hx _
    exact ⟨hmembers hx, hparts x⟩
  · -- the numbers that unions list are in the table, so none besides its own is needed
    intro x hx
    rw [Expansion.mem_without, Expansion.mem_without, List.mem_append, h.mem_typeIds,
      TypeTable.mem_ids, Option.isSome_iff_exists, ← TypeTable.contains_iff]
    simp [hx]
  · exact hparts id

/-! ### Results and functions -/

variable (shape : ResultShape)

theorem isResultLike_eq {id : TypeId} (hid : p.types.contains id = true) :
    a.isResultLike shape id = pure (Classifier.isResultLike ⟨p.types, shape⟩ id) := by
  rw [isResultLike, h.property?_eq hid, pure_bind, Classifier.isResultLike]
  dsimp only
  cases htag : p.types.property? id shape.discriminant with
  | none => rfl
  | some tag =>
    have ht : p.types.contains tag = true := h.valid.types.contains_property? htag
    have hliterals : ∀ x ∈ p.types.apparentMembers tag,
        a.stringLiteral? x = pure (p.types.stringLiteral? x) := fun x hx =>
      h.stringLiteral?_eq (h.valid.types.contains_of_mem_apparentMembers hx)
    simp only [h.apparentMembers_eq ht, pure_bind, mapM_eq_pure hliterals]
    rw [anyOf_eq_pure fun marker _ => by rw [h.property?_eq hid, pure_bind],
      List.filterMap_map]
    rfl

theorem isSometimesResult_eq {id : TypeId} (hid : p.types.contains id = true) :
    a.isSometimesResult shape id = pure (Classifier.isSometimesResult ⟨p.types, shape⟩ id) := by
  rw [isSometimesResult, h.apparentMembers_eq hid, pure_bind]
  exact anyOf_eq_pure fun x hx =>
    h.isResultLike_eq shape (h.valid.types.contains_of_mem_apparentMembers hx)

theorem isAlwaysResult_eq {id : TypeId} (hid : p.types.contains id = true) :
    a.isAlwaysResult shape id = pure (Classifier.isAlwaysResult ⟨p.types, shape⟩ id) := by
  rw [isAlwaysResult, h.apparentMembers_eq hid, pure_bind, allOf_eq_pure fun x hx =>
    h.isResultLike_eq shape (h.valid.types.contains_of_mem_apparentMembers hx), pure_bind]
  rfl

theorem isResultArrayOrTuple_eq {id : TypeId} (hid : p.types.contains id = true) :
    a.isResultArrayOrTuple shape id =
      pure (Classifier.isResultArrayOrTuple ⟨p.types, shape⟩ id) := by
  rw [isResultArrayOrTuple, h.apparentMembers_eq hid, pure_bind]
  apply anyOf_eq_pure
  intro x hx
  rw [h.elementTypes_eq (h.valid.types.contains_of_mem_apparentMembers hx), pure_bind]
  exact anyOf_eq_pure fun y hy =>
    h.isSometimesResult_eq shape (h.valid.types.contains_elementTypes hy)

theorem apparentSignatures_eq {id : TypeId} (hid : p.types.contains id = true) (kind : CallKind) :
    a.apparentSignatures kind id = pure (p.types.apparentSignatures kind id) := by
  rw [apparentSignatures, h.apparentMembers_eq hid, pure_bind]
  exact joined_eq_pure fun x hx =>
    h.signatures_eq (h.valid.types.contains_of_mem_apparentMembers hx) kind

omit h in
theorem contains_returnType (hv : p.Valid) {kind : CallKind} {id : TypeId} {s : Signature}
    (hs : s ∈ p.types.apparentSignatures kind id) : p.types.contains s.returnType = true := by
  obtain ⟨x, _, hs⟩ := List.mem_flatMap.1 hs
  exact hv.types.contains_returnType hs

omit h in
theorem contains_parameter (hv : p.Valid) {kind : CallKind} {id : TypeId} {s : Signature}
    (hs : s ∈ p.types.apparentSignatures kind id) {q : Parameter} (hq : q ∈ s.params) :
    p.types.contains q.type = true := by
  obtain ⟨x, _, hs⟩ := List.mem_flatMap.1 hs
  exact hv.types.contains_parameter hs hq

theorem isResultReturning_eq {id : TypeId} (hid : p.types.contains id = true) :
    a.isResultReturning shape id = pure (Classifier.isResultReturning ⟨p.types, shape⟩ id) := by
  rw [isResultReturning, h.apparentSignatures_eq hid, pure_bind]
  exact anyOf_eq_pure fun s hs => h.isSometimesResult_eq shape (contains_returnType h.valid hs)

theorem isVoidReturning_eq {id : TypeId} (hid : p.types.contains id = true) :
    a.isVoidReturning shape id = pure (Classifier.isVoidReturning ⟨p.types, shape⟩ id) := by
  rw [isVoidReturning, h.apparentSignatures_eq hid, pure_bind,
    anyOf_eq_pure fun s hs => h.isVoid_eq (contains_returnType h.valid hs), pure_bind,
    anyOf_eq_pure fun s hs => h.isSometimesResult_eq shape (contains_returnType h.valid hs),
    pure_bind]
  rfl

theorem expectsVoid_eq {types : List TypeId} (ht : ∀ x ∈ types, p.types.contains x = true) :
    a.expectsVoid shape types = pure (Classifier.expectsVoid ⟨p.types, shape⟩ types) := by
  rw [expectsVoid, anyOf_eq_pure fun x hx => h.isVoidReturning_eq shape (ht x hx), pure_bind,
    anyOf_eq_pure fun x hx => h.isResultReturning_eq shape (ht x hx), pure_bind]
  rfl

theorem restType?_eq {id : TypeId} (hid : p.types.contains id = true) (i : Nat) :
    a.restType? id i = pure (p.types.restType? id i) := by
  rw [restType?, h.apparentType_eq hid, pure_bind,
    h.read_eq (h.valid.types.contains_apparentType id)]
  rfl

theorem parameterOffer?_eq {q : Parameter} (hq : p.types.contains q.type = true)
    (count position index : Nat) :
    a.parameterOffer? count position index q =
      pure (p.types.parameterOffer? count position index q) := by
  rw [parameterOffer?, TypeTable.parameterOffer?]
  split
  · rw [h.restType?_eq hq, pure_bind]
  · rfl

theorem signatureOffers_eq {s : Signature} (hs : ∀ q ∈ s.params, p.types.contains q.type = true)
    (count position : Nat) :
    a.signatureOffers count position s = pure (p.types.signatureOffers count position s) := by
  have hoffer : ∀ x ∈ s.params.zipIdx, (do
      return (← a.parameterOffer? count position x.2 x.1).toList) =
        (pure (p.types.parameterOffer? count position x.2 x.1).toList : m (List TypeId)) := by
    intro x hx
    rw [h.parameterOffer?_eq (hs _ (List.fst_mem_of_mem_zipIdx hx)), pure_bind]
  rw [signatureOffers, joined_eq_pure hoffer, TypeTable.signatureOffers,
    List.filterMap_eq_flatMap_toList]

theorem parameterReach_eq {q : Parameter} (hq : p.types.contains q.type = true)
    (count index : Nat) :
    a.parameterReach shape count index q =
      pure (Classifier.parameterReach ⟨p.types, shape⟩ count index q) := by
  rw [parameterReach, Classifier.parameterReach]
  split
  · obtain ⟨ty, hty⟩ := TypeTable.contains_iff.1 (h.valid.types.contains_apparentType q.type)
    rw [h.apparentType_eq hq, pure_bind, h.type hty, pure_bind, TypeTable.resolve_of_get? hty]
    cases ty with
    | array element =>
      have he : p.types.contains element = true := h.valid.types.mentioned hty (.arrayElement _)
      simp only [h.isVoidReturning_eq shape he, pure_bind]
    | _ => rfl
  · rfl

theorem signatureReach_eq {s : Signature} (hs : ∀ q ∈ s.params, p.types.contains q.type = true)
    (count : Nat) :
    a.signatureReach shape count s =
      pure (Classifier.signatureReach ⟨p.types, shape⟩ count s) := by
  rw [signatureReach, mapM_eq_pure fun x hx =>
    h.parameterReach_eq shape (hs _ (List.fst_mem_of_mem_zipIdx hx)) count x.2, pure_bind]
  rfl

theorem voidArguments_eq {callee : TypeId} (hc : p.types.contains callee = true) (kind : CallKind)
    (count : Option Nat) :
    a.voidArguments shape callee kind count =
      pure (Classifier.voidArguments ⟨p.types, shape⟩ callee kind count) := by
  cases count with
  | none => rfl
  | some count =>
    have hparams : ∀ s ∈ p.types.apparentSignatures kind callee, ∀ q ∈ s.params,
        p.types.contains q.type = true := fun s hs q hq => contains_parameter h.valid hs hq
    rw [voidArguments, h.apparentSignatures_eq hc, pure_bind,
      mapM_eq_pure fun s hs => h.signatureReach_eq shape (hparams s hs) count, pure_bind]
    refine select_eq_pure fun position _ => ?_
    rw [joined_eq_pure fun s hs => h.signatureOffers_eq (hparams s hs) count position, pure_bind]
    apply h.expectsVoid_eq
    intro x hx
    obtain ⟨s, hs, hx⟩ := List.mem_flatMap.1 hx
    obtain ⟨y, _, hs⟩ := List.mem_flatMap.1 hs
    exact h.valid.types.contains_signatureOffers hs hx

/-! ### Texts -/

section

variable {show_ : TypeId → m String} {plain : TypeId → String}

omit h in
theorem signatureText_eq {s : Signature}
    (hs : ∀ id ∈ s.references, show_ id = pure (plain id)) :
    signatureText show_ s = pure (TypeTable.signatureText plain s) := by
  have hparams : ∀ q ∈ s.params,
      parameterText show_ q = pure (TypeTable.parameterText plain q) := by
    intro q hq
    rw [parameterText, hs _ (Signature.mem_references.2 (Or.inl ⟨q, hq, rfl⟩)), pure_bind]
    rfl
  rw [signatureText, mapM_eq_pure hparams, pure_bind,
    hs _ (Signature.mem_references.2 (Or.inr rfl)), pure_bind]
  rfl

omit h in
theorem objectText_eq {o : ObjectType}
    (ho : ∀ id ∈ o.references, show_ id = pure (plain id)) :
    objectText show_ o = pure (TypeTable.objectText plain o) := by
  have hproperties : ∀ q ∈ o.properties,
      propertyText show_ q = pure (TypeTable.propertyText plain q) := by
    intro q hq
    rw [propertyText, ho _ (ObjectType.mem_references.2 (Or.inl ⟨q, hq, rfl⟩)), pure_bind]
    rfl
  have hsignatures : ∀ s ∈ o.callSignatures,
      signatureText show_ s = pure (TypeTable.signatureText plain s) := by
    intro s hs
    refine signatureText_eq fun id hid => ?_
    exact ho id (ObjectType.mem_references.2 (Or.inr (Or.inl ⟨s, hs, hid⟩)))
  by_cases hfunction : ∃ s, o.properties = [] ∧ o.callSignatures = [s]
  · obtain ⟨s, hps, hss⟩ := hfunction
    have hmonadic : objectText show_ o = signatureText show_ s := by
      simp only [objectText, hps, hss]
    have hplain : TypeTable.objectText plain o = TypeTable.signatureText plain s := by
      simp only [TypeTable.objectText, hps, hss]
    rw [hmonadic, hplain]
    exact hsignatures s (by rw [hss]; exact List.mem_singleton_self s)
  · have hplain : TypeTable.objectText plain o = "\x7b " ++ TypeTable.sequenceText "; "
        (o.properties.map (TypeTable.propertyText plain) ++
          o.callSignatures.map (TypeTable.signatureText plain)) ++ " \x7d" := by
      unfold TypeTable.objectText
      split
      next s hps hss => exact absurd ⟨s, hps, hss⟩ hfunction
      next => rfl
    rw [hplain]
    unfold objectText
    split
    next s hps hss => exact absurd ⟨s, hps, hss⟩ hfunction
    next => rw [mapM_eq_pure hproperties, pure_bind, mapM_eq_pure hsignatures, pure_bind]

end

theorem textWithin_eq (depth : Nat) {id : TypeId} (hid : p.types.contains id = true) :
    a.textWithin depth id = pure (p.types.textWithin depth id) := by
  induction depth generalizing id with
  | zero => rfl
  | succ depth ih =>
    obtain ⟨ty, hty⟩ := TypeTable.contains_iff.1 hid
    have hparts : ∀ r ∈ ty.references,
        a.textWithin depth r = pure (p.types.textWithin depth r) := fun r hr =>
      ih (h.valid.types.mentioned hty (Ty.mem_references_iff.1 hr))
    rw [textWithin, h.type hty, pure_bind, TypeTable.textWithin, TypeTable.resolve_of_get? hty]
    cases ty with
    | primitive _ => rfl
    | literal _ => rfl
    | object o =>
      dsimp only
      cases o.name with
      | none => exact objectText_eq hparts
      | some _ => rfl
    | union members =>
      dsimp only
      rw [mapM_eq_pure (l := members) hparts, pure_bind]
    | array element =>
      have he : p.types.contains element = true := h.valid.types.mentioned hty (.arrayElement _)
      dsimp only
      rw [ih he, pure_bind, h.read_eq he, pure_bind]
    | tuple elements =>
      dsimp only
      rw [mapM_eq_pure (l := elements) hparts, pure_bind]
    | parameter _ _ => rfl

theorem display_eq {id : TypeId} (hid : p.types.contains id = true) :
    a.display id = pure (p.types.display id) :=
  h.textWithin_eq 9 hid

end Serves

end Access

end ResultLint
