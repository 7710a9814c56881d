import ResultLint.Proofs.Access.Types
import ResultLint.Proofs.Dispatch
import ResultLint.Proofs.Reports

/-!
# Rules over lookups

The rules, with a program that can only be looked into.  Every recursion over nodes goes through
`into`, which asks for leave to go from a node to a part of it, and ends for no other reason than
that the numbers of nodes get smaller: no depth is set.

* `skipChain_eq`, `dropped?_eq`, `checkCondition_eq`: **the recursions find what they find with a
  depth**, and stay below the root.
* `floating_eq`, `misuse_eq`: so do the two rules, at every hook of the program.
-/

namespace ResultLint

namespace Access

open Floating (Dropped)

variable {m : Type → Type} [Monad m] (a : Access m) (shape : ResultShape) {α : Type}

/-! ## Nodes -/

def kind (id : NodeId) : m NodeKind := return (← a.node id).kind

def typeAt (id : NodeId) : m TypeId := return (← a.node id).type.getD .unknown

def contextualType? (id : NodeId) : m (Option TypeId) := return (← a.node id).contextualType

def report (info : RuleInfo) (kind : DiagnosticKind) (id : NodeId) : m Diagnostic :=
  return { rule := info.name, code := info.code, kind, node := id, span := (← a.node id).span,
           severity := info.severity }

/-- Goes on at a part of a node. -/
def into (whole part : NodeId) (next : part.index < whole.index → m α) : m α := do
  next (← a.descend whole part).down

def skipChain (id : NodeId) : m { n : NodeId // n.index ≤ id.index } := do
  match ← a.kind id with
  | .chain expression =>
    a.into id expression fun h => do
      let n ← skipChain expression
      return ⟨n.1, Nat.le_trans n.2 (Nat.le_of_lt h)⟩
  | _ => return ⟨id, Nat.le_refl _⟩
termination_by id.index

/-- The node is a function that returns a Result. -/
def returnsResult (node : NodeId) : m Bool := do
  a.isResultReturning shape (← a.apparentType (← a.typeAt node))

def apparentProperty? (id : TypeId) (name : String) : m (Option TypeId) := do
  firstOf (← a.apparentMembers id) fun member => a.property? member name

/-! ## Floating Results -/

def dropped? (id : NodeId) : m (Option Dropped) := do
  let ⟨node, hle⟩ ← a.skipChain id
  match ← a.kind node with
  | .assignment _ _ _ => return none
  | .sequence expressions =>
    firstOf expressions fun e => a.into node e fun h =>
      have : e.index < id.index := Nat.lt_of_lt_of_le h hle
      dropped? e
  | .unary .void argument =>
    a.into node argument fun h =>
      have : argument.index < id.index := Nat.lt_of_lt_of_le h hle
      dropped? argument
  | kind =>
    let type ← a.typeAt node
    if ← a.isResultArrayOrTuple shape type then return some .resultArray
    else if !(← a.isSometimesResult shape type) then return none
    else
      match kind with
      | .call _ _ _ => return some .result
      | .construct _ _ => return some .result
      | .member _ _ _ => return some .result
      | .identifier _ => return some .result
      | .conditional _ consequent alternate =>
        a.into node alternate fun h₁ => a.into node consequent fun h₂ => do
          have : alternate.index < id.index := Nat.lt_of_lt_of_le h₁ hle
          have : consequent.index < id.index := Nat.lt_of_lt_of_le h₂ hle
          let first ← dropped? alternate
          let second ← dropped? consequent
          return first.or second
      | .logical _ left right =>
        a.into node left fun h₁ => a.into node right fun h₂ => do
          have : left.index < id.index := Nat.lt_of_lt_of_le h₁ hle
          have : right.index < id.index := Nat.lt_of_lt_of_le h₂ hle
          let first ← dropped? left
          let second ← dropped? right
          return first.or second
      | _ => return none
termination_by id.index

def reportDropped (statement : NodeId) : Dropped → m Diagnostic
  | .result =>
    return (← a.report Floating.info .floating statement).withNote
      "Assign the Result or branch on its tag"
  | .resultArray =>
    return (← a.report Floating.info .floatingResultArray statement).withNote
      "Combine the Results into one before handling it"

/-- What a check finds, given the nodes looked at before, and the nodes looked at after it. -/
abbrev Check (m : Type → Type) := Visits → m (List Diagnostic × Visits)

/-- The check that finds this and looks at no node for the first time. -/
def finds (ds : m (List Diagnostic)) : Check m := fun visits => return (← ds, visits)

def checkFloating (statement : NodeId) : m (List Diagnostic) := do
  match ← a.kind statement with
  | .expressionStatement expression =>
    match ← a.dropped? shape expression with
    | some dropped => return [← a.reportDropped statement dropped]
    | none => return []
  | _ => return []

/-- The rule on floating Results. -/
def floating : Hook → Check m
  | .statement id => finds (a.checkFloating shape id)
  | _ => finds (return [])

/-! ## Conditions -/

/-- Goes on at a part of a node, or does nothing. -/
def intoIf (on : Bool) (whole part : NodeId) (next : part.index < whole.index → Check m) :
    Check m := fun visits =>
  if on then a.into whole part fun h => next h visits else return ([], visits)

def checkCondition (inTest : Bool) (node : NodeId) : Check m := fun visits => do
  if (Misuse.conditionKey, node) ∈ visits then return ([], visits)
  else
    match ← a.kind node with
    | .logical operator left right =>
      let first ← a.intoIf (operator ≠ .nullish || inTest) node left
        (fun _ => checkCondition inTest left) ((Misuse.conditionKey, node) :: visits)
      let second ← a.intoIf inTest node right (fun _ => checkCondition inTest right) first.2
      return (first.1 ++ second.1, second.2)
    | _ =>
      let always ← a.isAlwaysResult shape (← a.typeAt node)
      let diagnostic ← a.report Misuse.info .conditional node
      return (if always then [diagnostic] else [], (Misuse.conditionKey, node) :: visits)
termination_by node.index

/-! ## Collections -/

def spreadArgument? (entry : NodeId) : m (Option NodeId) := do
  match ← a.kind entry with
  | .spread argument => return some argument
  | _ => return none

def checkSpreads (entries : List NodeId) : m (List Diagnostic) := do
  let arguments ← joined entries fun entry => return (← a.spreadArgument? entry).toList
  let found ← select arguments fun argument => do a.isSometimesResult shape (← a.typeAt argument)
  found.mapM (a.report Misuse.info .spread)

def staticName? : Key → m (Option String)
  | .name name => return some name
  | .computed key => do
    match ← a.kind key with
    | .literal (.string value) => return some value
    | _ => a.stringLiteral? (← a.typeAt key)

def isPredicateMethod (callee : NodeId) : m Bool := do
  match ← a.kind (← a.skipChain callee).1 with
  | .member object key _ =>
    let name ← a.staticName? key
    let isList ← anyOf (← a.apparentMembers (← a.typeAt object)) a.isArrayOrTuple
    return name.any (· ∈ Misuse.predicateMethods) && isList
  | _ => return false

/-- A report that is made or not; its place is looked up in any case. -/
def reportIf (condition : Bool) (kind : DiagnosticKind) (node : NodeId) : m (List Diagnostic) := do
  let diagnostic ← a.report Misuse.info kind node
  return if condition then [diagnostic] else []

def checkPredicate (callee : NodeId) : List NodeId → m (List Diagnostic)
  | [] => return []
  | predicate :: _ => do
    let takesPredicate ← a.isPredicateMethod callee
    let returns ← a.returnsResult shape predicate
    a.reportIf (takesPredicate && returns) .predicate predicate

/-! ## Functions that should return nothing -/

def isMisplaced (expected : TypeId) (node : NodeId) : m Bool := do
  let void ← a.isVoidReturning shape expected
  let result ← a.returnsResult shape node
  return void && result

def isMisplacedInContext (node : NodeId) : m Bool := do
  match ← a.contextualType? node with
  | none => return false
  | some expected => a.isMisplaced shape expected node

def misplacedArguments (kind : CallKind) (callee : NodeId) (arguments : Option (List NodeId)) :
    m (List NodeId) := do
  let positions ←
    a.voidArguments shape (← a.typeAt callee) kind (arguments.map (·.length))
  let found ← select (arguments.getD []).zipIdx fun (argument, position) => do
    let result ← a.returnsResult shape argument
    return position ∈ positions && result
  return found.map (·.1)

def checkArguments (kind : CallKind) (callee : NodeId) (arguments : Option (List NodeId)) :
    m (List Diagnostic) := do
  (← a.misplacedArguments shape kind callee arguments).mapM
    (a.report Misuse.info .voidReturnArgument)

def checkAssignment (left right : NodeId) : m (List Diagnostic) := do
  a.reportIf (← a.isMisplaced shape (← a.typeAt left) right) .voidReturnVariable right

def checkDeclarator (declarator : NodeId) : m (List Diagnostic) := do
  match ← a.kind declarator with
  | .variableDeclarator target (some init) => a.checkAssignment shape target init
  | _ => return []

def isMisplacedMethod (object : NodeId) (name : String) (method : NodeId) : m Bool := do
  let result ← a.returnsResult shape method
  let expected ← match ← a.contextualType? object with
    | none => pure none
    | some type => a.apparentProperty? type name
  let void ← match expected with
    | none => pure false
    | some type => a.isVoidReturning shape type
  return result && void

def isMisplacedProperty (object : NodeId) (key : Key) (value : NodeId) : PropertyForm → m Bool
  | .init => a.isMisplacedInContext shape value
  | .shorthand => a.isMisplacedInContext shape value
  | .method =>
    match key.name? with
    | none => return false
    | some name => a.isMisplacedMethod shape object name value

def checkProperty (object property : NodeId) : m (List Diagnostic) := do
  match ← a.kind property with
  | .property key value form =>
    a.reportIf (← a.isMisplacedProperty shape object key value form) .voidReturnProperty value
  | _ => return []

def checkReturn (argument : NodeId) : m (List Diagnostic) := do
  a.reportIf (← a.isMisplacedInContext shape argument) .voidReturnReturnValue argument

def isLiteral (node : NodeId) : m Bool := do
  match ← a.kind node with
  | .literal _ => return true
  | _ => return false

def checkAttribute (attribute_ : NodeId) : m (List Diagnostic) := do
  match ← a.kind attribute_ with
  | .elementAttribute _ (some value) =>
    let literal ← a.isLiteral value
    let misplaced ← a.isMisplacedInContext shape value
    a.reportIf (!literal && misplaced) .voidReturnAttribute value
  | _ => return []

def heritageTypes (heritage : List NodeId) : m (List TypeId) :=
  return (← heritage.mapM a.typeAt).foldl (fun ids id => if id ∈ ids then ids else ids ++ [id]) []

def expectsVoidMethod (name : String) (parent : TypeId) : m Bool := do
  match ← a.apparentProperty? parent name with
  | none => return false
  | some type => a.isVoidReturning shape type

def reportInherited (member : NodeId) (parent : TypeId) : m Diagnostic := do
  a.report Misuse.info (.voidReturnInheritedMethod (← a.display parent)) member

def checkInherited (declaration member : NodeId) : m (List Diagnostic) := do
  match (← a.kind declaration).classLike?, ← a.kind member with
  | some (heritage, _), .classMember (.name name) _ _ false =>
    let result ← a.returnsResult shape member
    let parents ← select (← a.heritageTypes heritage) (a.expectsVoidMethod shape name)
    let found ← parents.mapM (a.reportInherited member)
    return if result then found else []
  | _, _ => return []

/-! ## Misused Results -/

def when (on : Bool) (found : m (List Diagnostic)) : m (List Diagnostic) :=
  if on then found else return []

def whenCheck (on : Bool) (check : Check m) : Check m := if on then check else finds (return [])

def checkStatement (checks : MisuseChecks) (statement : NodeId) : Check m := fun visits => do
  match ← a.kind statement with
  | .ifElse test _ _ => whenCheck checks.conditionals (a.checkCondition shape true test) visits
  | .whileLoop test _ => whenCheck checks.conditionals (a.checkCondition shape true test) visits
  | .doWhileLoop _ test => whenCheck checks.conditionals (a.checkCondition shape true test) visits
  | .forLoop _ (some test) _ _ =>
    whenCheck checks.conditionals (a.checkCondition shape true test) visits
  | .returnStatement (some argument) =>
    finds (when checks.voidReturn.returns (a.checkReturn shape argument)) visits
  | .variableDeclaration declarators =>
    finds (when checks.voidReturn.assignments (joined declarators (a.checkDeclarator shape))) visits
  | _ => return ([], visits)

def checkConditions (expression : NodeId) : Check m := fun visits => do
  match ← a.kind expression with
  | .conditional test _ _ => a.checkCondition shape true test visits
  | .logical _ _ _ => a.checkCondition shape false expression visits
  | .unary .not argument => a.checkCondition shape true argument visits
  | _ => return ([], visits)

def checkValues (checks : MisuseChecks) (expression : NodeId) : m (List Diagnostic) := do
  match ← a.kind expression with
  | .call callee arguments _ =>
    let misplaced ← when checks.voidReturn.arguments
      (a.checkArguments shape .call callee (some arguments))
    let predicate ← when checks.predicates (a.checkPredicate shape callee arguments)
    return misplaced ++ predicate
  | .construct callee arguments =>
    when checks.voidReturn.arguments (a.checkArguments shape .construct callee arguments)
  | .assignment _ left right =>
    when checks.voidReturn.assignments (a.checkAssignment shape left right)
  | .objectLiteral properties =>
    let misplaced ← when checks.voidReturn.properties
      (joined properties (a.checkProperty shape expression))
    let spread ← when checks.spreads (a.checkSpreads shape properties)
    return misplaced ++ spread
  | .arrayLiteral elements => when checks.spreads (a.checkSpreads shape elements)
  | .element _ attributes _ =>
    when checks.voidReturn.attributes (joined attributes (a.checkAttribute shape))
  | _ => return []

def checkExpression (checks : MisuseChecks) (expression : NodeId) : Check m := fun visits => do
  let first ← whenCheck checks.conditionals (a.checkConditions shape expression) visits
  let values ← a.checkValues shape checks expression
  return (first.1 ++ values, first.2)

/-- The rule on misused Results. -/
def misuse (checks : MisuseChecks) : Hook → Check m
  | .program _ => finds (return [])
  | .statement id => a.checkStatement shape checks id
  | .expression id => a.checkExpression shape checks id
  | .classMember declaration member =>
    finds (when checks.voidReturn.inheritedMethods (a.checkInherited shape declaration member))

/-! ## Answers -/

namespace Serves

variable [LawfulMonad m] {a : Access m} {c : Context} (h : a.Serves c.program)

include h

omit [LawfulMonad m] in
theorem node_eq {id : NodeId} (hid : c.tree.Reaches c.tree.root id) :
    ∃ node, c.tree.get? id = some node ∧ a.node id = pure node := by
  obtain ⟨node, hn⟩ := h.valid.exists_get? hid
  exact ⟨node, hn, h.node hid hn⟩

theorem kind_eq {id : NodeId} (hid : c.tree.Reaches c.tree.root id) :
    ∃ kind, c.tree.kind? id = some kind ∧ a.kind id = pure kind := by
  obtain ⟨node, hn, ha⟩ := h.node_eq hid
  refine ⟨node.kind, by rw [Tree.kind?, hn, Option.map_some], ?_⟩
  rw [kind, ha, pure_bind]

theorem typeAt_eq {id : NodeId} (hid : c.tree.Reaches c.tree.root id) :
    a.typeAt id = pure (c.program.typeAt id) := by
  obtain ⟨node, hn, ha⟩ := h.node_eq hid
  have hn' : c.program.tree.get? id = some node := hn
  rw [typeAt, ha, pure_bind, Program.typeAt, hn', Option.bind_some]

theorem contextualType?_eq {id : NodeId} (hid : c.tree.Reaches c.tree.root id) :
    a.contextualType? id = pure (c.program.contextualType? id) := by
  obtain ⟨node, hn, ha⟩ := h.node_eq hid
  have hn' : c.program.tree.get? id = some node := hn
  rw [contextualType?, ha, pure_bind, Program.contextualType?, hn', Option.bind_some]

theorem report_eq {id : NodeId} (hid : c.tree.Reaches c.tree.root id) (info : RuleInfo)
    (kind : DiagnosticKind) : a.report info kind id = pure (c.report info kind id) := by
  obtain ⟨node, hn, ha⟩ := h.node_eq hid
  rw [report, ha, pure_bind, Context.report, Tree.span, hn, Option.map_some, Option.getD_some]

omit [LawfulMonad m] in
theorem index_lt {id n : NodeId} {kind : NodeKind} (hk : c.tree.kind? id = some kind)
    (hn : kind.Mentions n) : n.index < id.index :=
  h.valid.ordered.index_lt (Tree.child_of_kind? hk hn)

theorem into_eq {whole part : NodeId} (hlt : part.index < whole.index)
    (next : part.index < whole.index → m α) : a.into whole part next = next hlt := by
  rw [into, h.descend hlt, pure_bind]

/-- The numbers from here on are as many steps as are needed. -/
theorem skipChainWithin_eq {steps : Nat} {id : NodeId} (hsteps : id.index ≤ steps)
    (hid : c.tree.Reaches c.tree.root id) :
    (∃ hle, a.skipChain id = pure ⟨c.tree.skipChainWithin steps id, hle⟩) ∧
      c.tree.Reaches c.tree.root (c.tree.skipChainWithin steps id) := by
  induction steps generalizing id with
  | zero =>
    obtain ⟨kind, hk, ha⟩ := h.kind_eq hid
    refine ⟨⟨Nat.le_refl _, ?_⟩, hid⟩
    rw [skipChain, ha, pure_bind]
    cases kind with
    | chain expression =>
      have hlt := h.index_lt hk (.chainExpression expression)
      omega
    | _ => rfl
  | succ steps ih =>
    obtain ⟨kind, hk, ha⟩ := h.kind_eq hid
    rw [skipChain, ha, pure_bind, Tree.skipChainWithin, hk]
    cases kind with
    | chain expression =>
      have hlt := h.index_lt hk (.chainExpression expression)
      obtain ⟨⟨hle, he⟩, hr⟩ := ih (by omega) (hid.part hk (.chainExpression expression))
      refine ⟨⟨Nat.le_trans hle (Nat.le_of_lt hlt), ?_⟩, hr⟩
      simp only [h.into_eq hlt, he, pure_bind]
    | _ => exact ⟨⟨Nat.le_refl _, rfl⟩, hid⟩

theorem skipChain_eq {id : NodeId} (hid : c.tree.Reaches c.tree.root id) :
    (∃ hle, a.skipChain id = pure ⟨c.tree.skipChain id, hle⟩) ∧
      c.tree.Reaches c.tree.root (c.tree.skipChain id) := by
  obtain ⟨node, hn, _⟩ := h.node_eq hid
  exact h.skipChainWithin_eq (Nat.le_of_lt (Tree.index_lt_size hn)) hid

/-! ### Types of nodes -/

omit [LawfulMonad m] in
theorem contains_typeAt (id : NodeId) : c.program.types.contains (c.program.typeAt id) = true :=
  h.valid.contains_typeAt id

theorem isSometimesResult_typeAt {id : NodeId} (hid : c.tree.Reaches c.tree.root id) :
    (do a.isSometimesResult c.shape (← a.typeAt id)) = pure (c.isSometimesResult id) := by
  rw [h.typeAt_eq hid, pure_bind, h.isSometimesResult_eq c.shape (h.contains_typeAt id)]
  rfl

theorem returnsResult_eq {id : NodeId} (hid : c.tree.Reaches c.tree.root id) :
    a.returnsResult c.shape id = pure (c.returnsResult id) := by
  rw [returnsResult, h.typeAt_eq hid, pure_bind, h.apparentType_eq (h.contains_typeAt id),
    pure_bind, h.isResultReturning_eq c.shape (h.valid.types.contains_apparentType _)]
  rfl

theorem apparentProperty?_eq {id : TypeId} (hid : c.program.types.contains id = true)
    (name : String) : a.apparentProperty? id name = pure (c.apparentProperty? id name) := by
  rw [apparentProperty?, h.apparentMembers_eq hid, pure_bind]
  exact firstOf_eq_pure fun x hx =>
    h.property?_eq (h.valid.types.contains_of_mem_apparentMembers hx) name

omit [LawfulMonad m] in
theorem contains_apparentProperty? {id r : TypeId} {name : String}
    (hr : c.apparentProperty? id name = some r) : c.program.types.contains r = true := by
  obtain ⟨x, _, hx⟩ := List.exists_of_findSome?_eq_some hr
  exact h.valid.types.contains_property? hx

/-! ### Floating Results -/

theorem droppedWithin_eq {depth : Nat} {id : NodeId} (hdepth : id.index < depth)
    (hid : c.tree.Reaches c.tree.root id) :
    a.dropped? c.shape id = pure (Floating.droppedWithin c depth id) := by
  induction depth generalizing id with
  | zero => omega
  | succ depth ih =>
    obtain ⟨⟨hle, hskip⟩, hr⟩ := h.skipChain_eq hid
    obtain ⟨kind, hk, ha⟩ := h.kind_eq hr
    have hpart : ∀ {n : NodeId}, kind.Mentions n → n.index < (c.tree.skipChain id).index ∧
        a.dropped? c.shape n = pure (Floating.droppedWithin c depth n) := by
      intro n hn
      have hlt := h.index_lt hk hn
      exact ⟨hlt, ih (by omega) (hr.part hk hn)⟩
    have htype := h.contains_typeAt (c.tree.skipChain id)
    rw [dropped?, hskip, pure_bind, Floating.droppedWithin]
    simp only [ha, hk, pure_bind]
    -- the kinds for which the type of the node is asked for
    have hasked : ∀ {below : m (Option Dropped)} {found : Option Dropped}, below = pure found →
        (do
          let type ← a.typeAt (c.tree.skipChain id)
          if ← a.isResultArrayOrTuple c.shape type then return some .resultArray
          else if !(← a.isSometimesResult c.shape type) then return none
          else below) =
        (pure (if c.isResultArrayOrTuple (c.tree.skipChain id) then some .resultArray
          else if !c.isSometimesResult (c.tree.skipChain id) then none else found) :
          m (Option Dropped)) := by
      intro below found hbelow
      rw [h.typeAt_eq hr, pure_bind, h.isResultArrayOrTuple_eq c.shape htype, pure_bind]
      change (if c.isResultArrayOrTuple _ then _ else _) = _
      split
      · rfl
      · rw [h.isSometimesResult_eq c.shape htype, pure_bind]
        change (if !c.isSometimesResult _ then _ else _) = _
        split
        · rfl
        · exact hbelow
    cases kind with
    | assignment _ _ _ => rfl
    | sequence expressions =>
      refine firstOf_eq_pure fun e he => ?_
      obtain ⟨hlt, hd⟩ := hpart (.sequenceItem he)
      rw [h.into_eq hlt, hd]
    | unary operator argument =>
      cases operator with
      | void =>
        obtain ⟨hlt, hd⟩ := hpart (.unaryArgument .void argument)
        dsimp only
        rw [h.into_eq hlt, hd]
      | _ => exact hasked rfl
    | conditional test consequent alternate =>
      obtain ⟨hlt₁, hd₁⟩ := hpart (.conditionalAlternate test consequent alternate)
      obtain ⟨hlt₂, hd₂⟩ := hpart (.conditionalConsequent test consequent alternate)
      apply hasked
      dsimp only
      rw [h.into_eq hlt₁, h.into_eq hlt₂, hd₁, pure_bind, hd₂, pure_bind]
    | logical operator left right =>
      obtain ⟨hlt₁, hd₁⟩ := hpart (.logicalLeft operator left right)
      obtain ⟨hlt₂, hd₂⟩ := hpart (.logicalRight operator left right)
      apply hasked
      dsimp only
      rw [h.into_eq hlt₁, h.into_eq hlt₂, hd₁, pure_bind, hd₂, pure_bind]
    | _ => exact hasked rfl

theorem dropped?_eq {id : NodeId} (hid : c.tree.Reaches c.tree.root id) :
    a.dropped? c.shape id = pure (Floating.dropped? c id) := by
  obtain ⟨node, hn, _⟩ := h.node_eq hid
  exact h.droppedWithin_eq (Tree.index_lt_size hn) hid

theorem reportDropped_eq {id : NodeId} (hid : c.tree.Reaches c.tree.root id) (d : Dropped) :
    a.reportDropped id d = pure (d.report c id) := by
  cases d with
  | result => rw [reportDropped, h.report_eq hid, pure_bind]; rfl
  | resultArray => rw [reportDropped, h.report_eq hid, pure_bind]; rfl

theorem checkFloating_eq {id : NodeId} (hid : c.tree.Reaches c.tree.root id) :
    a.checkFloating c.shape id = pure (Floating.checkStatement c id) := by
  obtain ⟨kind, hk, ha⟩ := h.kind_eq hid
  rw [checkFloating, ha, pure_bind, Floating.checkStatement, hk]
  cases kind with
  | expressionStatement expression =>
    have he := hid.part hk (.statementExpression expression)
    simp only [h.dropped?_eq he, pure_bind]
    cases Floating.dropped? c expression with
    | none => rfl
    | some d =>
      simp only [h.reportDropped_eq hid, pure_bind]
      rfl
  | _ => rfl

/-! ### Conditions -/

theorem intoIf_eq {on : Bool} {whole part : NodeId} {next : part.index < whole.index → Check m}
    {visits : Visits} {found : List Diagnostic × Visits} (hlt : part.index < whole.index)
    (hnext : next hlt visits = pure found) :
    a.intoIf on whole part next visits = pure (if on then found else ([], visits)) := by
  rw [intoIf]
  split
  · rw [h.into_eq hlt, hnext]
  · rfl

theorem checkConditionWithin_eq {depth : Nat} {node : NodeId} (hdepth : node.index < depth)
    (hid : c.tree.Reaches c.tree.root node) (inTest : Bool) (visits : Visits) :
    a.checkCondition c.shape inTest node visits =
      pure ((Misuse.checkConditionWithin c depth inTest node).run visits) := by
  induction depth generalizing node visits with
  | zero => omega
  | succ depth ih =>
    rw [checkCondition, Misuse.checkConditionWithin_run]
    by_cases hv : (Misuse.conditionKey, node) ∈ visits
    · rw [if_pos hv, if_pos hv]
    · rw [if_neg hv, if_neg hv]
      obtain ⟨kind, hk, ha⟩ := h.kind_eq hid
      rw [ha, pure_bind, hk]
      cases kind with
      | logical operator left right =>
        have hl := h.index_lt hk (.logicalLeft operator left right)
        have hr := h.index_lt hk (.logicalRight operator left right)
        have hleft := hid.part hk (.logicalLeft operator left right)
        have hright := hid.part hk (.logicalRight operator left right)
        dsimp only
        rw [h.intoIf_eq hl (ih (by omega) hleft _), pure_bind,
          h.intoIf_eq hr (ih (by omega) hright _), pure_bind]
      | _ =>
        have htype := h.contains_typeAt node
        simp only [h.typeAt_eq hid, pure_bind, h.isAlwaysResult_eq c.shape htype, h.report_eq hid]
        rfl

theorem checkCondition_eq {node : NodeId} (hid : c.tree.Reaches c.tree.root node) (inTest : Bool)
    (visits : Visits) :
    a.checkCondition c.shape inTest node visits =
      pure ((Misuse.checkCondition c inTest node).run visits) := by
  obtain ⟨n, hn, _⟩ := h.node_eq hid
  have hlt := Tree.index_lt_size hn
  exact h.checkConditionWithin_eq (by omega) hid inTest visits

/-! ### Collections -/

theorem spreadArgument?_eq {entry : NodeId} (hid : c.tree.Reaches c.tree.root entry) :
    a.spreadArgument? entry = pure (Misuse.spreadArgument? c entry) := by
  obtain ⟨kind, hk, ha⟩ := h.kind_eq hid
  rw [spreadArgument?, ha, pure_bind, Misuse.spreadArgument?, hk]
  cases kind <;> rfl

theorem checkSpreads_eq {entries : List NodeId}
    (hids : ∀ entry ∈ entries, c.tree.Reaches c.tree.root entry) :
    a.checkSpreads c.shape entries = pure (Misuse.checkSpreads c entries) := by
  have harguments : ∀ entry ∈ entries,
      (do return (← a.spreadArgument? entry).toList) =
        (pure (Misuse.spreadArgument? c entry).toList : m (List NodeId)) := by
    intro entry he
    rw [h.spreadArgument?_eq (hids entry he), pure_bind]
  have hreach : ∀ x ∈ entries.filterMap (Misuse.spreadArgument? c),
      c.tree.Reaches c.tree.root x := by
    intro x hx
    obtain ⟨entry, he, hx⟩ := List.mem_filterMap.1 hx
    rw [Misuse.spreadArgument?] at hx
    split at hx
    next hk =>
      cases hx
      exact (hids entry he).part hk (.spreadArgument x)
    next => cases hx
  rw [checkSpreads, joined_eq_pure harguments, pure_bind, ← List.filterMap_eq_flatMap_toList,
    select_eq_pure fun x hx => h.isSometimesResult_typeAt (hreach x hx), pure_bind]
  exact mapM_eq_pure fun x hx => h.report_eq (hreach x (List.mem_of_mem_filter hx)) _ _

theorem staticName?_eq {key : Key} (hid : ∀ n, key = .computed n → c.tree.Reaches c.tree.root n) :
    a.staticName? key = pure (Misuse.staticName? c key) := by
  cases key with
  | name name => rfl
  | computed n =>
    obtain ⟨kind, hk, ha⟩ := h.kind_eq (hid n rfl)
    have htype : (do a.stringLiteral? (← a.typeAt n)) =
        pure (c.program.types.stringLiteral? (c.program.typeAt n)) := by
      rw [h.typeAt_eq (hid n rfl), pure_bind, h.stringLiteral?_eq (h.contains_typeAt n)]
    rw [staticName?, ha, pure_bind, Misuse.staticName?, hk]
    cases kind with
    | literal value =>
      cases value with
      | string value => rfl
      | _ => exact htype
    | _ => exact htype

theorem isPredicateMethod_eq {callee : NodeId} (hid : c.tree.Reaches c.tree.root callee) :
    a.isPredicateMethod callee = pure (Misuse.isPredicateMethod c callee) := by
  obtain ⟨⟨hle, hskip⟩, hr⟩ := h.skipChain_eq hid
  obtain ⟨kind, hk, ha⟩ := h.kind_eq hr
  rw [isPredicateMethod, hskip, pure_bind, ha, pure_bind, Misuse.isPredicateMethod, hk]
  cases kind with
  | member object key isOptional =>
    have hobject := hr.part hk (.memberObject object key isOptional)
    have hkey : ∀ n, key = .computed n → c.tree.Reaches c.tree.root n := by
      rintro n rfl
      exact hr.part hk (.memberKey object n isOptional)
    have htype := h.contains_typeAt object
    simp only [h.staticName?_eq hkey, pure_bind, h.typeAt_eq hobject, h.apparentMembers_eq htype]
    rw [anyOf_eq_pure fun x hx =>
      h.isArrayOrTuple_eq (h.valid.types.contains_of_mem_apparentMembers hx), pure_bind]
    rfl
  | _ => rfl

theorem reportIf_eq {node : NodeId} (hid : c.tree.Reaches c.tree.root node) (condition : Bool)
    (kind : DiagnosticKind) :
    a.reportIf condition kind node = pure (Misuse.reportIf c condition kind node) := by
  rw [reportIf, h.report_eq hid, pure_bind]
  rfl

theorem checkPredicate_eq {callee : NodeId} {arguments : List NodeId}
    (hc : c.tree.Reaches c.tree.root callee)
    (hids : ∀ x ∈ arguments, c.tree.Reaches c.tree.root x) :
    a.checkPredicate c.shape callee arguments = pure (Misuse.checkPredicate c callee arguments) := by
  cases arguments with
  | nil => rfl
  | cons predicate rest =>
    have hp := hids predicate List.mem_cons_self
    rw [checkPredicate, h.isPredicateMethod_eq hc, pure_bind, h.returnsResult_eq hp, pure_bind,
      h.reportIf_eq hp]
    rfl

/-! ### Functions that should return nothing -/

theorem isMisplaced_eq {expected : TypeId} {node : NodeId}
    (he : c.program.types.contains expected = true) (hid : c.tree.Reaches c.tree.root node) :
    a.isMisplaced c.shape expected node = pure (Misuse.isMisplaced c expected node) := by
  rw [isMisplaced, h.isVoidReturning_eq c.shape he, pure_bind, h.returnsResult_eq hid, pure_bind]
  rfl

theorem isMisplacedInContext_eq {node : NodeId} (hid : c.tree.Reaches c.tree.root node) :
    a.isMisplacedInContext c.shape node = pure (Misuse.isMisplacedInContext c node) := by
  rw [isMisplacedInContext, h.contextualType?_eq hid, pure_bind, Misuse.isMisplacedInContext]
  cases ht : c.program.contextualType? node with
  | none => rfl
  | some expected => exact h.isMisplaced_eq (h.valid.contains_contextualType? ht) hid

theorem checkArguments_eq {callee : NodeId} {arguments : Option (List NodeId)}
    (hc : c.tree.Reaches c.tree.root callee)
    (hids : ∀ x ∈ arguments.getD [], c.tree.Reaches c.tree.root x) (kind : CallKind) :
    a.checkArguments c.shape kind callee arguments =
      pure (Misuse.checkArguments c kind callee arguments) := by
  have hfound : a.misplacedArguments c.shape kind callee arguments =
      pure (Misuse.misplacedArguments c kind callee arguments) := by
    rw [misplacedArguments, h.typeAt_eq hc, pure_bind,
      h.voidArguments_eq c.shape (h.contains_typeAt callee), pure_bind,
      select_eq_pure (g := fun x => x.2 ∈ c.classifier.voidArguments (c.program.typeAt callee) kind
        (arguments.map (·.length)) && c.returnsResult x.1), pure_bind]
    · rfl
    · rintro ⟨argument, position⟩ hx
      have hreach := hids argument (List.fst_mem_of_mem_zipIdx hx)
      dsimp only
      rw [h.returnsResult_eq hreach, pure_bind]
      rfl
  have hreach : ∀ x ∈ Misuse.misplacedArguments c kind callee arguments,
      c.tree.Reaches c.tree.root x := by
    intro x hx
    obtain ⟨y, hy, rfl⟩ := List.mem_map.1 hx
    exact hids _ (List.fst_mem_of_mem_zipIdx (List.mem_of_mem_filter hy))
  rw [checkArguments, hfound, pure_bind]
  exact mapM_eq_pure fun x hx => h.report_eq (hreach x hx) _ _

theorem checkAssignment_eq {left right : NodeId} (hl : c.tree.Reaches c.tree.root left)
    (hr : c.tree.Reaches c.tree.root right) :
    a.checkAssignment c.shape left right = pure (Misuse.checkAssignment c left right) := by
  rw [checkAssignment, h.typeAt_eq hl, pure_bind, h.isMisplaced_eq (h.contains_typeAt left) hr,
    pure_bind, h.reportIf_eq hr]
  rfl

theorem checkDeclarator_eq {declarator : NodeId} (hid : c.tree.Reaches c.tree.root declarator) :
    a.checkDeclarator c.shape declarator = pure (Misuse.checkDeclarator c declarator) := by
  obtain ⟨kind, hk, ha⟩ := h.kind_eq hid
  rw [checkDeclarator, ha, pure_bind, Misuse.checkDeclarator, hk]
  cases kind with
  | variableDeclarator target init =>
    cases init with
    | none => rfl
    | some init =>
      exact h.checkAssignment_eq (hid.part hk (.declaratorTarget target (some init)))
        (hid.part hk (.declaratorInit target init))
  | _ => rfl

theorem isMisplacedMethod_eq {object method : NodeId} (ho : c.tree.Reaches c.tree.root object)
    (hm : c.tree.Reaches c.tree.root method) (name : String) :
    a.isMisplacedMethod c.shape object name method =
      pure (Misuse.isMisplacedMethod c object name method) := by
  rw [isMisplacedMethod, h.returnsResult_eq hm, pure_bind, h.contextualType?_eq ho, pure_bind,
    Misuse.isMisplacedMethod]
  cases ht : c.program.contextualType? object with
  | none => simp only [pure_bind, Option.bind_none, Option.any_none]
  | some type =>
    simp only [h.apparentProperty?_eq (h.valid.contains_contextualType? ht), pure_bind,
      Option.bind_some]
    cases hp : c.apparentProperty? type name with
    | none => simp only [Option.any_none]
    | some expected =>
      simp only [h.isVoidReturning_eq c.shape (h.contains_apparentProperty? hp), pure_bind,
        Option.any_some]
      rfl

theorem isMisplacedProperty_eq {object value : NodeId} (ho : c.tree.Reaches c.tree.root object)
    (hv : c.tree.Reaches c.tree.root value) (key : Key) (form : PropertyForm) :
    a.isMisplacedProperty c.shape object key value form =
      pure (Misuse.isMisplacedProperty c object key value form) := by
  cases form with
  | init => exact h.isMisplacedInContext_eq hv
  | shorthand => exact h.isMisplacedInContext_eq hv
  | method =>
    cases key with
    | name name => exact h.isMisplacedMethod_eq ho hv name
    | computed _ => rfl

theorem checkProperty_eq {object property : NodeId} (ho : c.tree.Reaches c.tree.root object)
    (hid : c.tree.Reaches c.tree.root property) :
    a.checkProperty c.shape object property = pure (Misuse.checkProperty c object property) := by
  obtain ⟨kind, hk, ha⟩ := h.kind_eq hid
  rw [checkProperty, ha, pure_bind, Misuse.checkProperty, hk]
  cases kind with
  | property key value form =>
    have hv := hid.part hk (.propertyValue key value form)
    simp only [h.isMisplacedProperty_eq ho hv, pure_bind, h.reportIf_eq hv]
  | _ => rfl

theorem checkReturn_eq {argument : NodeId} (hid : c.tree.Reaches c.tree.root argument) :
    a.checkReturn c.shape argument = pure (Misuse.checkReturn c argument) := by
  rw [checkReturn, h.isMisplacedInContext_eq hid, pure_bind, h.reportIf_eq hid]
  rfl

theorem isLiteral_eq {node : NodeId} (hid : c.tree.Reaches c.tree.root node) :
    a.isLiteral node = pure (Misuse.isLiteral c node) := by
  obtain ⟨kind, hk, ha⟩ := h.kind_eq hid
  rw [isLiteral, ha, pure_bind, Misuse.isLiteral, hk]
  cases kind <;> rfl

theorem checkAttribute_eq {attr : NodeId} (hid : c.tree.Reaches c.tree.root attr) :
    a.checkAttribute c.shape attr = pure (Misuse.checkAttribute c attr) := by
  obtain ⟨kind, hk, ha⟩ := h.kind_eq hid
  rw [checkAttribute, ha, pure_bind, Misuse.checkAttribute, hk]
  cases kind with
  | elementAttribute name value =>
    cases value with
    | none => rfl
    | some value =>
      have hv := hid.part hk (.attributeValue name value)
      simp only [h.isLiteral_eq hv, pure_bind, h.isMisplacedInContext_eq hv, h.reportIf_eq hv]
  | _ => rfl

theorem heritageTypes_eq {heritage : List NodeId}
    (hids : ∀ n ∈ heritage, c.tree.Reaches c.tree.root n) :
    a.heritageTypes heritage = pure (Misuse.heritageTypes c heritage) := by
  rw [heritageTypes, mapM_eq_pure fun n hn => h.typeAt_eq (hids n hn), pure_bind]
  rfl

theorem expectsVoidMethod_eq {parent : TypeId} (hp : c.program.types.contains parent = true)
    (name : String) :
    a.expectsVoidMethod c.shape name parent = pure (Misuse.expectsVoidMethod c name parent) := by
  rw [expectsVoidMethod, h.apparentProperty?_eq hp, pure_bind, Misuse.expectsVoidMethod]
  cases ht : c.apparentProperty? parent name with
  | none => rfl
  | some type => exact h.isVoidReturning_eq c.shape (h.contains_apparentProperty? ht)

omit [LawfulMonad m] in
theorem contains_heritageTypes {heritage : List NodeId} {r : TypeId}
    (hr : r ∈ Misuse.heritageTypes c heritage) : c.program.types.contains r = true := by
  obtain ⟨n, _, rfl⟩ := Misuse.mem_heritageTypes_iff.1 hr
  exact h.contains_typeAt n

theorem reportInherited_eq {member : NodeId} {parent : TypeId}
    (hid : c.tree.Reaches c.tree.root member) (hp : c.program.types.contains parent = true) :
    a.reportInherited member parent =
      pure (c.report Misuse.info (.voidReturnInheritedMethod (c.program.types.display parent))
        member) := by
  rw [reportInherited, h.display_eq hp, pure_bind, h.report_eq hid]

theorem checkInherited_eq {declaration member : NodeId}
    (hd : c.tree.Reaches c.tree.root declaration) (hid : c.tree.Reaches c.tree.root member) :
    a.checkInherited c.shape declaration member =
      pure (Misuse.checkInherited c declaration member) := by
  obtain ⟨whole, hw, haw⟩ := h.kind_eq hd
  obtain ⟨kind, hk, ha⟩ := h.kind_eq hid
  rw [checkInherited, haw, pure_bind, ha, pure_bind, Misuse.checkInherited, hw, hk,
    Option.bind_some]
  cases hc : whole.classLike? with
  | none => rfl
  | some parts =>
    obtain ⟨heritage, members⟩ := parts
    have hheritage : ∀ n ∈ heritage, c.tree.Reaches c.tree.root n := fun n hn =>
      hd.part hw (NodeKind.mentions_heritage hc hn)
    cases kind with
    | classMember key form value isStatic =>
      cases key with
      | computed _ => rfl
      | name name =>
        cases isStatic with
        | true => rfl
        | false =>
          have hparents : ∀ r ∈ Misuse.heritageTypes c heritage,
              a.expectsVoidMethod c.shape name r =
                pure (Misuse.expectsVoidMethod c name r) := fun r hr =>
            h.expectsVoidMethod_eq (h.contains_heritageTypes hr) name
          have hreports : ∀ r ∈ (Misuse.heritageTypes c heritage).filter
              (Misuse.expectsVoidMethod c name), a.reportInherited member r = pure _ := fun r hr =>
            h.reportInherited_eq hid (h.contains_heritageTypes (List.mem_of_mem_filter hr))
          simp only [h.returnsResult_eq hid, pure_bind, h.heritageTypes_eq hheritage,
            select_eq_pure hparents, mapM_eq_pure hreports]
    | _ => rfl

/-! ### The rules -/

omit h in
theorem finds_eq {ds : m (List Diagnostic)} {found : List Diagnostic} (hds : ds = pure found)
    (visits : Visits) : finds ds visits = pure ((pure found : ResultLint.Check).run visits) := by
  rw [finds, hds, pure_bind, run_pure]

omit [LawfulMonad m] h in
theorem when_eq {ds : m (List Diagnostic)} {found : List Diagnostic} (on : Bool)
    (hds : ds = pure found) : when on ds = pure (Misuse.when on found) := by
  cases on with
  | false => rfl
  | true => exact hds

omit h in
theorem whenCheck_eq {check : Check m} {plain : ResultLint.Check} (on : Bool) (visits : Visits)
    (hcheck : check visits = pure (plain.run visits)) :
    whenCheck on check visits = pure ((Misuse.whenCheck on plain).run visits) := by
  cases on with
  | false => exact finds_eq rfl visits
  | true => exact hcheck

theorem checkStatement_eq {id : NodeId} (hid : c.tree.Reaches c.tree.root id)
    (checks : MisuseChecks) (visits : Visits) :
    a.checkStatement c.shape checks id visits =
      pure ((Misuse.checkStatement checks c id).run visits) := by
  obtain ⟨kind, hk, ha⟩ := h.kind_eq hid
  rw [checkStatement, ha, pure_bind, Misuse.checkStatement, hk]
  have hcondition : ∀ {test : NodeId}, kind.Mentions test →
      whenCheck checks.conditionals (a.checkCondition c.shape true test) visits =
        pure ((Misuse.whenCheck checks.conditionals
          (Misuse.checkCondition c true test)).run visits) := fun ht =>
    whenCheck_eq _ visits (h.checkCondition_eq (hid.part hk ht) true visits)
  cases kind with
  | ifElse test consequent alternate => exact hcondition (.ifTest test consequent alternate)
  | whileLoop test body => exact hcondition (.whileTest test body)
  | doWhileLoop body test => exact hcondition (.doWhileTest body test)
  | forLoop init test update body =>
    cases test with
    | none => rfl
    | some test => exact hcondition (.forTest init test update body)
  | returnStatement argument =>
    cases argument with
    | none => rfl
    | some argument =>
      have hargument := hid.part hk (.returnArgument argument)
      exact finds_eq (when_eq _ (h.checkReturn_eq hargument)) visits
  | variableDeclaration declarators =>
    refine finds_eq (when_eq _ (joined_eq_pure fun x hx => ?_)) visits
    exact h.checkDeclarator_eq (hid.part hk (.declarator hx))
  | _ => rfl

theorem checkConditions_eq {id : NodeId} (hid : c.tree.Reaches c.tree.root id) (visits : Visits) :
    a.checkConditions c.shape id visits = pure ((Misuse.checkConditions c id).run visits) := by
  obtain ⟨kind, hk, ha⟩ := h.kind_eq hid
  rw [checkConditions, ha, pure_bind, Misuse.checkConditions, hk]
  cases kind with
  | conditional test consequent alternate =>
    exact h.checkCondition_eq (hid.part hk (.conditionalTest test consequent alternate)) true visits
  | logical operator left right => exact h.checkCondition_eq hid false visits
  | unary operator argument =>
    cases operator with
    | not => exact h.checkCondition_eq (hid.part hk (.unaryArgument .not argument)) true visits
    | _ => rfl
  | _ => rfl

theorem checkValues_eq {id : NodeId} (hid : c.tree.Reaches c.tree.root id)
    (checks : MisuseChecks) :
    a.checkValues c.shape checks id = pure (Misuse.checkValues checks c id) := by
  obtain ⟨kind, hk, ha⟩ := h.kind_eq hid
  rw [checkValues, ha, pure_bind, Misuse.checkValues, hk]
  cases kind with
  | call callee arguments isOptional =>
    have hc := hid.part hk (.callCallee callee arguments isOptional)
    have harguments : ∀ x ∈ arguments, c.tree.Reaches c.tree.root x := fun x hx =>
      hid.part hk (.callArgument callee isOptional hx)
    have hlisted : ∀ x ∈ (some arguments).getD [], c.tree.Reaches c.tree.root x := harguments
    dsimp only
    rw [when_eq _ (h.checkArguments_eq hc hlisted .call), pure_bind,
      when_eq _ (h.checkPredicate_eq hc harguments), pure_bind]
  | construct callee arguments =>
    have hc := hid.part hk (.constructCallee callee arguments)
    refine when_eq _ (h.checkArguments_eq hc ?_ .construct)
    intro x hx
    obtain ⟨l, rfl, hx⟩ := mem_getD_nil_iff.1 hx
    exact hid.part hk (.constructArgument callee hx)
  | assignment operator left right =>
    exact when_eq _ (h.checkAssignment_eq (hid.part hk (.assignmentLeft operator left right))
      (hid.part hk (.assignmentRight operator left right)))
  | objectLiteral properties =>
    have hproperties : ∀ x ∈ properties, c.tree.Reaches c.tree.root x := fun x hx =>
      hid.part hk (.objectProperty hx)
    dsimp only
    rw [when_eq _ (joined_eq_pure fun x hx => h.checkProperty_eq hid (hproperties x hx)),
      pure_bind, when_eq _ (h.checkSpreads_eq hproperties), pure_bind]
  | arrayLiteral elements =>
    exact when_eq _ (h.checkSpreads_eq fun x hx => hid.part hk (.arrayItem hx))
  | element name attributes children =>
    exact when_eq _ (joined_eq_pure fun x hx =>
      h.checkAttribute_eq (hid.part hk (.elementAttribute name children hx)))
  | _ => rfl

theorem checkExpression_eq {id : NodeId} (hid : c.tree.Reaches c.tree.root id)
    (checks : MisuseChecks) (visits : Visits) :
    a.checkExpression c.shape checks id visits =
      pure ((Misuse.checkExpression checks c id).run visits) := by
  rw [checkExpression, whenCheck_eq _ visits (h.checkConditions_eq hid visits), pure_bind,
    h.checkValues_eq hid, pure_bind]
  rfl

theorem floating_eq {hook : Hook} (hhook : hook.Within c.tree) (visits : Visits) :
    a.floating c.shape hook visits = pure ((Rule.floating.check c hook).run visits) := by
  cases hook with
  | statement id => exact finds_eq (h.checkFloating_eq hhook) visits
  | _ => exact finds_eq rfl visits

theorem misuse_eq {hook : Hook} (hhook : hook.Within c.tree) (checks : MisuseChecks)
    (visits : Visits) :
    a.misuse c.shape checks hook visits =
      pure (((Rule.misuse checks).check c hook).run visits) := by
  cases hook with
  | program root => exact finds_eq rfl visits
  | statement id => exact h.checkStatement_eq hhook checks visits
  | expression id => exact h.checkExpression_eq hhook checks visits
  | classMember declaration member =>
    exact finds_eq (when_eq _ (h.checkInherited_eq hhook.1 hhook.2)) visits

end Serves

end Access

end ResultLint

