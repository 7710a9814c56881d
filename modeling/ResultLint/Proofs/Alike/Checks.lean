import ResultLint.Proofs.Alike.Verdicts
import ResultLint.Proofs.Anchors
import ResultLint.Proofs.Translation.Nodes

/-!
# Checks that find alike

Two trees have the same form if their nodes have the same kinds, whatever their names, operators and
marks.  A tree can also have the form of another under other numbers.  `Context.Mirrors` adds the
questions that checks ask about the types of nodes; with the same numbers for nodes it is
`Context.Agrees`.  Where these have the same answers, a check finds in the one tree what it finds in
the other, each time on the mirrored node (`Context.counterpart`).

* `Mirrors.of_classifier`: **the answers are the same if classifiers mirror each other and the nodes
  have interchangeable types.**
* `Mirrors.floating_eq` and the like: **each check finds the counterparts.**  A predicate method has
  to be called by the same name for this, and a method to be expected by the same type.
-/

namespace ResultLint

/-! ## Kinds -/

def LiteralValue.isString : LiteralValue → Bool
  | string _ => true
  | _ => false

/-- The kinds differ only in names, operators and marks that nothing depends on. -/
inductive NodeKind.Alike : NodeKind → NodeKind → Prop
  | refl (kind : NodeKind) : Alike kind kind
  | function (form form' : FunctionForm) (name name' : Option String) (params : List NodeId)
      (body : NodeId) : Alike (.function form name params body) (.function form' name' params body)
  | classDeclaration (name name' : String) (heritage members : List NodeId) :
      Alike (.classDeclaration name heritage members) (.classDeclaration name' heritage members)
  | interfaceDeclaration (name name' : String) (heritage members : List NodeId) :
      Alike (.interfaceDeclaration name heritage members)
        (.interfaceDeclaration name' heritage members)
  | classMember (key : Key) (form form' : MemberForm) (value : Option NodeId) (isStatic : Bool) :
      Alike (.classMember key form value isStatic) (.classMember key form' value isStatic)
  | binary (operator operator' : String) (left right : NodeId) :
      Alike (.binary operator left right) (.binary operator' left right)
  | assignment (operator operator' : String) (left right : NodeId) :
      Alike (.assignment operator left right) (.assignment operator' left right)
  | call (callee : NodeId) (arguments : List NodeId) (isOptional isOptional' : Bool) :
      Alike (.call callee arguments isOptional) (.call callee arguments isOptional')
  | member (object : NodeId) (key : Key) (isOptional isOptional' : Bool) :
      Alike (.member object key isOptional) (.member object key isOptional')
  | identifier (name name' : String) : Alike (.identifier name) (.identifier name')
  | literal {value value' : LiteralValue} (h : value.isString = false)
      (h' : value'.isString = false) : Alike (.literal value) (.literal value')
  | element (name name' : String) (attributes children : List NodeId) :
      Alike (.element name attributes children) (.element name' attributes children)
  | elementAttribute (name name' : String) (value : Option NodeId) :
      Alike (.elementAttribute name value) (.elementAttribute name' value)

namespace NodeKind.Alike

variable {kind kind' : NodeKind}

theorem children_eq (h : kind.Alike kind') : kind'.children = kind.children := by
  cases h <;> rfl

theorem classLike?_eq (h : kind.Alike kind') : kind'.classLike? = kind.classLike? := by
  cases h <;> rfl

theorem ne_string (h : kind.Alike kind') (hkind : ∀ value, kind ≠ .literal (.string value))
    (value : String) : kind' ≠ .literal (.string value) := by
  cases h with
  | refl kind => exact hkind value
  | literal _ hv =>
    rintro ⟨⟩
    cases hv
  | _ => exact NodeKind.noConfusion

end NodeKind.Alike

/-! ## Diagnostics -/

/-- The kind without what it quotes. -/
def DiagnosticKind.anonymous : DiagnosticKind → DiagnosticKind
  | voidReturnInheritedMethod _ => .voidReturnInheritedMethod ""
  | kind => kind

theorem DiagnosticKind.id_anonymous (kind : DiagnosticKind) : kind.anonymous.id = kind.id := by
  cases kind <;> rfl

/-- The diagnostic without its place and without what it quotes. -/
def Diagnostic.outline (d : Diagnostic) : Diagnostic :=
  { d with kind := d.kind.anonymous, span := {} }

def Diagnostic.outlines (ds : List Diagnostic) : List Diagnostic := ds.map outline

/-! ## Questions about nodes -/

/-- The tree has the form of the other under other numbers, and what checks ask about the types of
its nodes has the same answers. -/
structure Context.Mirrors (g : NodeId → NodeId) (c d : Context) : Prop where
  root : d.tree.root = g c.tree.root
  size : d.tree.size = c.tree.size
  injective : Function.Injective g
  kind : ∀ n, Option.Rel (fun kind kind' => (kind.map g).Alike kind') (c.tree.kind? n)
    (d.tree.kind? (g n))
  sometimes : ∀ n, d.isSometimesResult (g n) = c.isSometimesResult n
  always : ∀ n, d.isAlwaysResult (g n) = c.isAlwaysResult n
  arrayOrTuple : ∀ n, d.isResultArrayOrTuple (g n) = c.isResultArrayOrTuple n
  array : ∀ n, Misuse.isSometimesArrayOrTuple d (d.program.typeAt (g n)) =
    Misuse.isSometimesArrayOrTuple c (c.program.typeAt n)
  returnsResult : ∀ n, d.returnsResult (g n) = c.returnsResult n
  voidType : ∀ n, d.classifier.isVoidReturning (d.program.typeAt (g n)) =
    c.classifier.isVoidReturning (c.program.typeAt n)
  voidContext : ∀ n, (d.program.contextualType? (g n)).any d.classifier.isVoidReturning =
    (c.program.contextualType? n).any c.classifier.isVoidReturning
  voidArguments : ∀ n kind count position,
    position ∈ d.classifier.voidArguments (d.program.typeAt (g n)) kind count ↔
      position ∈ c.classifier.voidArguments (c.program.typeAt n) kind count

/-- The trees have the same form, and what checks ask about the types of their nodes has the same
answers. -/
abbrev Context.Agrees (c d : Context) : Prop := c.Mirrors id d

theorem Misuse.isSometimesArrayOrTuple_iff {c : Context} {id : TypeId} :
    isSometimesArrayOrTuple c id = true ↔ ∃ m ∈ c.apparentMembers id,
      (c.program.types.isArray m || c.program.types.isTuple m) = true := by
  rw [isSometimesArrayOrTuple, List.any_eq_true]

/-- The key is the name of a method that takes a predicate. -/
def Misuse.namesPredicate (c : Context) (key : Key) : Bool :=
  (staticName? c key).any (· ∈ predicateMethods)

theorem Misuse.staticName?_computed {c : Context} {key : NodeId} {kind : NodeKind}
    (hk : c.tree.kind? key = some kind) (hkind : ∀ value, kind ≠ .literal (.string value)) :
    staticName? c (.computed key) = c.program.types.stringLiteral? (c.program.typeAt key) := by
  rw [staticName?, hk]
  split
  next h => cases h
  next h => exact absurd (Option.some.inj h) (hkind _)
  next => rfl

/-- What is expected of a method is what the type around it expects. -/
theorem Misuse.isMisplacedMethod_eq (c : Context) (object : NodeId) (name : String)
    (method : NodeId) : isMisplacedMethod c object name method =
      (c.returnsResult method &&
        (c.program.contextualType? object).any (expectsVoidMethod c name)) := by
  rw [isMisplacedMethod]
  cases c.program.contextualType? object <;> rfl

/-- The numbers have the same apparent type and the same apparent members. -/
structure TypeTable.Interchangeable (t : TypeTable) (a b : TypeId) : Prop where
  apparentType : t.apparentType b = t.apparentType a
  mem_apparentMembers : ∀ m, m ∈ t.apparentMembers b ↔ m ∈ t.apparentMembers a

theorem TypeTable.Interchangeable.refl (t : TypeTable) (a : TypeId) : t.Interchangeable a a :=
  ⟨rfl, fun _ => Iff.rfl⟩

theorem rel_self {α : Type} {R : α → α → Prop} (hR : ∀ a, R a a) (o : Option α) :
    Option.Rel R o o := by
  cases o with
  | none => exact .none
  | some a => exact .some (hR a)

theorem rel_getD {α : Type} {R : α → α → Prop} {o o' : Option α} (h : Option.Rel R o o') {x : α}
    (hx : R x x) : R (o.getD x) (o'.getD x) := by
  cases h with
  | none => exact hx
  | some h => exact h

theorem rel_any {α : Type} {f g : α → Bool} {o o' : Option α}
    (h : Option.Rel (fun a b => g b = f a) o o') : o'.any g = o.any f := by
  cases h with
  | none => rfl
  | some h => exact h

/-- The diagnostic as it is made for the mirrored node. -/
def Context.counterpart (d : Context) (g : NodeId → NodeId) (x : Diagnostic) : Diagnostic :=
  { x with node := g x.node, span := d.tree.span (g x.node) }

namespace Context.Mirrors

variable {g : NodeId → NodeId} {c d : Context}

/-- **The answers are the same if classifiers mirror each other and the types of nodes are
interchangeable.** -/
theorem of_classifier {f : TypeId → TypeId} {Met : TypeId → Prop}
    (h : c.classifier.Mirrors f Met d.classifier) (root : d.tree.root = g c.tree.root)
    (size : d.tree.size = c.tree.size) (injective : Function.Injective g)
    (kind : ∀ n, Option.Rel (fun kind kind' => (kind.map g).Alike kind') (c.tree.kind? n)
      (d.tree.kind? (g n)))
    (met : ∀ n, Met (c.program.typeAt n))
    (metContext : ∀ {n r}, c.program.contextualType? n = some r → Met r)
    (types : ∀ n, d.program.types.Interchangeable (f (c.program.typeAt n))
      (d.program.typeAt (g n)))
    (contexts : ∀ n, Option.Rel (fun r r' => d.program.types.Interchangeable (f r) r')
      (c.program.contextualType? n) (d.program.contextualType? (g n))) : c.Mirrors g d := by
  have hverdicts := fun n => Classifier.verdicts_congr (c := d.classifier)
    (types n).mem_apparentMembers
  refine ⟨root, size, injective, kind, fun n => ?_, fun n => ?_, fun n => ?_, fun n => ?_,
    fun n => ?_, fun n => ?_, fun n => ?_, fun n kind count position => ?_⟩
  · exact (hverdicts n).1.trans (h.isSometimesResult_eq (met n))
  · exact (hverdicts n).2.1.trans (h.isAlwaysResult_eq (met n))
  · exact (hverdicts n).2.2.1.trans (h.isResultArrayOrTuple_eq (met n))
  · rw [Bool.eq_iff_iff, Misuse.isSometimesArrayOrTuple_iff, Misuse.isSometimesArrayOrTuple_iff]
    simp only [Context.apparentMembers, (types n).mem_apparentMembers]
    refine h.exists_apparentMember_iff (met n) fun m hm => ?_
    exact Eq.congr_left (congrArg₂ _ (h.entry hm).isArray_eq (h.entry hm).isTuple_eq)
  · rw [Context.returnsResult, Context.returnsResult, (types n).apparentType]
    refine Eq.trans ?_ (h.isResultReturning_eq (h.apparentType _))
    exact congrArg d.classifier.isResultReturning (h.apparentType_eq (met n))
  · exact (hverdicts n).2.2.2.2.trans (h.isVoidReturning_eq (met n))
  · have hn := contexts n
    generalize d.program.contextualType? (g n) = expected at hn ⊢
    cases hcontext : c.program.contextualType? n with
    | none =>
      rw [hcontext] at hn
      cases hn
      rfl
    | some r =>
      rw [hcontext] at hn
      cases hn with
      | some hr =>
        have hv := (Classifier.verdicts_congr (c := d.classifier) hr.mem_apparentMembers).2.2.2.2
        exact hv.trans (h.isVoidReturning_eq (metContext hcontext))
  · rw [← h.mem_voidArguments_iff (met n)]
    exact Classifier.mem_voidArguments_congr (c := d.classifier) (types n).mem_apparentMembers

theorem map_report (c : Context) (info : RuleInfo) (kind : DiagnosticKind) (nodes : List NodeId) :
    (nodes.map g).map (d.report info kind) =
      (nodes.map (c.report info kind)).map (d.counterpart g) := by
  rw [List.map_map, List.map_map]
  rfl

theorem reportIf_eq (c : Context) (condition : Bool) (kind : DiagnosticKind) (node : NodeId) :
    Misuse.reportIf d condition kind (g node) =
      (Misuse.reportIf c condition kind node).map (d.counterpart g) := by
  cases condition <;> rfl

variable (h : c.Mirrors g d)

include h

theorem kind_cases (n : NodeId) : (c.tree.kind? n = none ∧ d.tree.kind? (g n) = none) ∨
    ∃ kind kind', c.tree.kind? n = some kind ∧ d.tree.kind? (g n) = some kind' ∧
      (kind.map g).Alike kind' := by
  have hn := h.kind n
  generalize d.tree.kind? (g n) = found at hn ⊢
  cases hc : c.tree.kind? n with
  | none =>
    rw [hc] at hn
    cases hn
    exact Or.inl ⟨rfl, rfl⟩
  | some kind =>
    rw [hc] at hn
    cases hn with
    | some halike => exact Or.inr ⟨kind, _, rfl, rfl, halike⟩

theorem skipChain_eq (n : NodeId) : d.tree.skipChain (g n) = g (c.tree.skipChain n) := by
  have hsteps : ∀ steps n,
      d.tree.skipChainWithin steps (g n) = g (c.tree.skipChainWithin steps n) := by
    intro steps
    induction steps with
    | zero => exact fun n => rfl
    | succ steps ih =>
      intro n
      rw [Tree.skipChainWithin, Tree.skipChainWithin]
      rcases h.kind_cases n with ⟨hc, hd⟩ | ⟨kind, kind', hc, hd, hk⟩
      · rw [hc, hd]
      · rw [hc, hd]
        cases kind with
        | chain expression =>
          cases hk
          exact ih expression
        | _ => cases hk <;> rfl
  rw [Tree.skipChain, Tree.skipChain, h.size, hsteps]

/-! ### Dropped Results -/

theorem dropped?_eq (n : NodeId) : Floating.dropped? d (g n) = Floating.dropped? c n := by
  have hwithin : ∀ depth n,
      Floating.droppedWithin d depth (g n) = Floating.droppedWithin c depth n := by
    intro depth
    induction depth with
    | zero => exact fun n => rfl
    | succ depth ih =>
      intro n
      have hlist : Floating.droppedWithin d depth ∘ g = Floating.droppedWithin c depth := funext ih
      rw [Floating.droppedWithin, Floating.droppedWithin, h.skipChain_eq, h.sometimes,
        h.arrayOrTuple]
      rcases h.kind_cases (c.tree.skipChain n) with ⟨hc, hd⟩ | ⟨kind, kind', hc, hd, hk⟩
      · rw [hc, hd]
      · rw [hc, hd]
        cases kind with
        | sequence expressions =>
          cases hk
          show (expressions.map g).findSome? _ = expressions.findSome? _
          rw [List.findSome?_map, hlist]
        | unary operator argument =>
          cases hk
          cases operator with
          | void => exact ih argument
          | _ => rfl
        | conditional test consequent alternate =>
          cases hk
          simp only [NodeKind.map, ih]
        | logical operator left right =>
          cases hk
          simp only [NodeKind.map, ih]
        | _ => cases hk <;> rfl
  rw [Floating.dropped?, Floating.dropped?, h.size, hwithin]

theorem floating_eq (n : NodeId) :
    Floating.checkStatement d (g n) = (Floating.checkStatement c n).map (d.counterpart g) := by
  have hreport : ∀ found : Option Floating.Dropped,
      (found.map (·.report d (g n))).toList =
        (found.map (·.report c n)).toList.map (d.counterpart g) := by
    intro found
    rcases found with _ | _ | _ <;> rfl
  rw [Floating.checkStatement, Floating.checkStatement]
  rcases h.kind_cases n with ⟨hc, hd⟩ | ⟨kind, kind', hc, hd, hk⟩
  · rw [hc, hd]
    rfl
  · rw [hc, hd]
    cases kind with
    | expressionStatement expression =>
      cases hk
      show ((Floating.dropped? d (g expression)).map _).toList =
        ((Floating.dropped? c expression).map _).toList.map _
      rw [h.dropped?_eq, hreport]
    | _ => cases hk <;> rfl

/-! ### Conditions -/

/-- The nodes that were looked at before are mirrored too. -/
theorem checkConditionWithin (depth : Nat) (inTest : Bool) (n : NodeId) (visits : Visits) :
    ((Misuse.checkConditionWithin d depth inTest (g n)).run (visits.map (Prod.map id g))).1 =
        ((Misuse.checkConditionWithin c depth inTest n).run visits).1.map (d.counterpart g) ∧
      ((Misuse.checkConditionWithin d depth inTest (g n)).run (visits.map (Prod.map id g))).2 =
        ((Misuse.checkConditionWithin c depth inTest n).run visits).2.map (Prod.map id g) := by
  induction depth generalizing inTest n visits with
  | zero => exact ⟨rfl, rfl⟩
  | succ depth ih =>
    -- an operand is checked or passed over, in both runs alike
    have hsame : ∀ (on : Bool) (m : NodeId) (visits : Visits),
        (if on then
            (Misuse.checkConditionWithin d depth inTest (g m)).run (visits.map (Prod.map id g))
          else ([], visits.map (Prod.map id g))).1 =
          (if on then (Misuse.checkConditionWithin c depth inTest m).run visits
            else ([], visits)).1.map (d.counterpart g) ∧
        (if on then
            (Misuse.checkConditionWithin d depth inTest (g m)).run (visits.map (Prod.map id g))
          else ([], visits.map (Prod.map id g))).2 =
          (if on then (Misuse.checkConditionWithin c depth inTest m).run visits
            else ([], visits)).2.map (Prod.map id g) := by
      intro on m visits
      cases on with
      | false => exact ⟨rfl, rfl⟩
      | true => exact ih inTest m visits
    have hreport : ∀ on : Bool,
        (if on then [d.report Misuse.info .conditional (g n)] else []) =
          (if on then [c.report Misuse.info .conditional n] else []).map (d.counterpart g) := by
      intro on
      cases on <;> rfl
    have hpair : Function.Injective (Prod.map (id : String → String) g) :=
      Function.injective_id.prodMap h.injective
    have hvisited : (Misuse.conditionKey, g n) ∈ visits.map (Prod.map id g) ↔
        (Misuse.conditionKey, n) ∈ visits :=
      List.mem_map_of_injective hpair (a := (Misuse.conditionKey, n))
    rw [Misuse.checkConditionWithin_run, Misuse.checkConditionWithin_run, h.always]
    by_cases hv : (Misuse.conditionKey, n) ∈ visits
    · rw [if_pos hv, if_pos (hvisited.2 hv)]
      exact ⟨rfl, rfl⟩
    · rw [if_neg hv, if_neg (mt hvisited.1 hv)]
      rcases h.kind_cases n with ⟨hc, hd⟩ | ⟨kind, kind', hc, hd, hk⟩
      · rw [hc, hd]
        exact ⟨hreport _, rfl⟩
      · rw [hc, hd]
        cases kind with
        | logical operator left right =>
          cases hk
          obtain ⟨hfirst, hnext⟩ := hsame (decide (operator ≠ .nullish) || inTest) left
            ((Misuse.conditionKey, n) :: visits)
          simp only [List.map_cons, Prod.map_apply, id] at hfirst hnext
          simp only [NodeKind.map]
          rw [hnext]
          obtain ⟨hsecond, hlast⟩ := hsame inTest right _
          rw [List.map_append]
          exact ⟨congrArg₂ (· ++ ·) hfirst hsecond, hlast⟩
        | _ => cases hk <;> exact ⟨hreport _, rfl⟩

/-! ### Collections -/

theorem spreadArgument?_eq (entry : NodeId) :
    Misuse.spreadArgument? d (g entry) = (Misuse.spreadArgument? c entry).map g := by
  rw [Misuse.spreadArgument?, Misuse.spreadArgument?]
  rcases h.kind_cases entry with ⟨hc, hd⟩ | ⟨kind, kind', hc, hd, hk⟩
  · rw [hc, hd]
    rfl
  · rw [hc, hd]
    cases kind <;> cases hk <;> rfl

theorem spreads_eq (entries : List NodeId) :
    Misuse.checkSpreads d (entries.map g) =
      (Misuse.checkSpreads c entries).map (d.counterpart g) := by
  have harguments : (entries.map g).filterMap (Misuse.spreadArgument? d) =
      (entries.filterMap (Misuse.spreadArgument? c)).map g := by
    rw [List.filterMap_map, List.map_filterMap]
    exact List.filterMap_congr fun entry _ => h.spreadArgument?_eq entry
  have hsometimes : d.isSometimesResult ∘ g = c.isSometimesResult := funext h.sometimes
  rw [Misuse.checkSpreads, Misuse.checkSpreads, harguments, List.filter_map, hsometimes,
    map_report c]

/-- A key that is written out is the same name in both trees; any other goes by its type. -/
theorem namesPredicate_eq {key : Key}
    (hliteral : ∀ n, key = .computed n →
      (∀ value, c.tree.kind? n ≠ some (.literal (.string value))) →
      (d.program.types.stringLiteral? (d.program.typeAt (g n))).any
          (· ∈ Misuse.predicateMethods) =
        (c.program.types.stringLiteral? (c.program.typeAt n)).any (· ∈ Misuse.predicateMethods)) :
    Misuse.namesPredicate d (key.map g) = Misuse.namesPredicate c key := by
  rw [Misuse.namesPredicate, Misuse.namesPredicate]
  cases key with
  | name name => rfl
  | computed n =>
    rw [Key.map]
    rcases h.kind_cases n with ⟨hc, hd⟩ | ⟨kind, kind', hc, hd, hk⟩
    · rw [Misuse.staticName?, Misuse.staticName?, hc, hd]
    · by_cases hstring : ∃ value, kind = .literal (.string value)
      · obtain ⟨value, rfl⟩ := hstring
        cases hk with
        | refl kind => rw [Misuse.staticName?, Misuse.staticName?, hc, hd, NodeKind.map]
        | literal hv _ => cases hv
      · rw [not_exists] at hstring
        have hmapped : ∀ value, kind.map g ≠ .literal (.string value) := by
          intro value heq
          cases kind <;> cases heq
          exact hstring value rfl
        rw [Misuse.staticName?_computed hc hstring,
          Misuse.staticName?_computed hd (hk.ne_string hmapped)]
        refine hliteral n rfl fun value hvalue => ?_
        rw [hc] at hvalue
        exact hstring value (Option.some.inj hvalue)

/-- Callees are predicate methods alike if their names are names of such methods alike. -/
theorem predicate_eq {callee : NodeId}
    (hname : ∀ {object : NodeId} {key : Key} {isOptional : Bool},
      c.tree.kind? (c.tree.skipChain callee) = some (.member object key isOptional) →
      Misuse.namesPredicate d (key.map g) = Misuse.namesPredicate c key)
    (arguments : List NodeId) :
    Misuse.checkPredicate d (g callee) (arguments.map g) =
      (Misuse.checkPredicate c callee arguments).map (d.counterpart g) := by
  have hmethod : Misuse.isPredicateMethod d (g callee) = Misuse.isPredicateMethod c callee := by
    have hmember : ∀ {object : NodeId} {key : Key} {isOptional : Bool},
        c.tree.kind? (c.tree.skipChain callee) = some (.member object key isOptional) →
        (Misuse.namesPredicate d (key.map g) &&
            Misuse.isSometimesArrayOrTuple d (d.program.typeAt (g object))) =
          (Misuse.namesPredicate c key &&
            Misuse.isSometimesArrayOrTuple c (c.program.typeAt object)) := by
      intro object key isOptional hk
      rw [hname hk, h.array]
    rw [Misuse.isPredicateMethod, Misuse.isPredicateMethod, h.skipChain_eq]
    rcases h.kind_cases (c.tree.skipChain callee) with ⟨hc, hd⟩ | ⟨kind, kind', hc, hd, hk⟩
    · rw [hc, hd]
    · rw [hc, hd]
      cases kind with
      | member object key isOptional => cases hk <;> exact hmember hc
      | _ => cases hk <;> rfl
  cases arguments with
  | nil => rfl
  | cons predicate rest =>
    show Misuse.reportIf d _ .predicate (g predicate) =
      (Misuse.reportIf c _ .predicate predicate).map _
    rw [hmethod, h.returnsResult, reportIf_eq c]

/-! ### Functions that should return nothing -/

theorem arguments_eq (kind : CallKind) (callee : NodeId) (arguments : Option (List NodeId)) :
    Misuse.checkArguments d kind (g callee) (arguments.map (·.map g)) =
      (Misuse.checkArguments c kind callee arguments).map (d.counterpart g) := by
  have hlist : (arguments.map (·.map g)).getD [] = (arguments.getD []).map g := by
    cases arguments <;> rfl
  have hcount : (arguments.map (·.map g)).map (·.length) = arguments.map (·.length) := by
    rw [Option.map_map]
    refine Option.map_congr fun l _ => ?_
    exact List.length_map g
  have hmisplaced : Misuse.misplacedArguments d kind (g callee) (arguments.map (·.map g)) =
      (Misuse.misplacedArguments c kind callee arguments).map g := by
    rw [Misuse.misplacedArguments, Misuse.misplacedArguments, hlist, hcount, List.zipIdx_map,
      List.filter_map, List.map_map, List.map_map]
    refine congrArg (List.map _) (List.filter_congr ?_)
    rintro ⟨argument, position⟩ -
    show (decide (position ∈ _) && d.returnsResult (g argument)) =
      (decide (position ∈ _) && c.returnsResult argument)
    rw [h.returnsResult, decide_eq_decide.2 (h.voidArguments callee kind _ position)]
  rw [Misuse.checkArguments, Misuse.checkArguments, hmisplaced, map_report c]

theorem assignment_eq (left right : NodeId) :
    Misuse.checkAssignment d (g left) (g right) =
      (Misuse.checkAssignment c left right).map (d.counterpart g) := by
  rw [Misuse.checkAssignment, Misuse.checkAssignment, Misuse.isMisplaced, Misuse.isMisplaced,
    h.voidType, h.returnsResult, reportIf_eq c]

theorem declarator_eq (declarator : NodeId) :
    Misuse.checkDeclarator d (g declarator) =
      (Misuse.checkDeclarator c declarator).map (d.counterpart g) := by
  rw [Misuse.checkDeclarator, Misuse.checkDeclarator]
  rcases h.kind_cases declarator with ⟨hc, hd⟩ | ⟨kind, kind', hc, hd, hk⟩
  · rw [hc, hd]
    rfl
  · rw [hc, hd]
    cases kind with
    | variableDeclarator target init =>
      cases hk
      cases init with
      | none => rfl
      | some init => exact h.assignment_eq target init
    | _ => cases hk <;> rfl

theorem isMisplacedInContext_eq (n : NodeId) :
    Misuse.isMisplacedInContext d (g n) = Misuse.isMisplacedInContext c n := by
  have hsplit : ∀ (e : Context) (n : NodeId), Misuse.isMisplacedInContext e n =
      ((e.program.contextualType? n).any e.classifier.isVoidReturning && e.returnsResult n) := by
    intro e n
    rw [Misuse.isMisplacedInContext]
    cases e.program.contextualType? n <;> rfl
  rw [hsplit, hsplit, h.voidContext, h.returnsResult]

/-- A method is misplaced alike if its object is expected to have the same. -/
theorem property_eq {object property : NodeId}
    (hmethod : ∀ {name : String} {value : NodeId},
      c.tree.kind? property = some (.property (.name name) value .method) →
      (d.program.contextualType? (g object)).any (Misuse.expectsVoidMethod d name) =
        (c.program.contextualType? object).any (Misuse.expectsVoidMethod c name)) :
    Misuse.checkProperty d (g object) (g property) =
      (Misuse.checkProperty c object property).map (d.counterpart g) := by
  rw [Misuse.checkProperty, Misuse.checkProperty]
  rcases h.kind_cases property with ⟨hc, hd⟩ | ⟨kind, kind', hc, hd, hk⟩
  · rw [hc, hd]
    rfl
  · rw [hc, hd]
    cases kind with
    | property key value form =>
      cases hk
      have hmisplaced : Misuse.isMisplacedProperty d (g object) (key.map g) (g value) form =
          Misuse.isMisplacedProperty c object key value form := by
        cases form with
        | init => exact h.isMisplacedInContext_eq value
        | shorthand => exact h.isMisplacedInContext_eq value
        | method =>
          cases key with
          | name name =>
            show Misuse.isMisplacedMethod d (g object) name (g value) =
              Misuse.isMisplacedMethod c object name value
            rw [Misuse.isMisplacedMethod_eq, Misuse.isMisplacedMethod_eq, h.returnsResult,
              hmethod hc]
          | computed key => rfl
      show Misuse.reportIf d _ .voidReturnProperty (g value) =
        (Misuse.reportIf c _ .voidReturnProperty value).map _
      rw [hmisplaced, reportIf_eq c]
    | _ => cases hk <;> rfl

theorem return_eq (argument : NodeId) :
    Misuse.checkReturn d (g argument) =
      (Misuse.checkReturn c argument).map (d.counterpart g) := by
  rw [Misuse.checkReturn, Misuse.checkReturn, h.isMisplacedInContext_eq, reportIf_eq c]

theorem isLiteral_eq (n : NodeId) : Misuse.isLiteral d (g n) = Misuse.isLiteral c n := by
  rw [Misuse.isLiteral, Misuse.isLiteral]
  rcases h.kind_cases n with ⟨hc, hd⟩ | ⟨kind, kind', hc, hd, hk⟩
  · rw [hc, hd]
  · rw [hc, hd]
    cases kind <;> cases hk <;> rfl

theorem attribute_eq (n : NodeId) :
    Misuse.checkAttribute d (g n) = (Misuse.checkAttribute c n).map (d.counterpart g) := by
  have hvalue : ∀ value : NodeId,
      Misuse.reportIf d
          (!Misuse.isLiteral d (g value) && Misuse.isMisplacedInContext d (g value))
          .voidReturnAttribute (g value) =
        (Misuse.reportIf c (!Misuse.isLiteral c value && Misuse.isMisplacedInContext c value)
          .voidReturnAttribute value).map (d.counterpart g) := by
    intro value
    rw [h.isLiteral_eq, h.isMisplacedInContext_eq, reportIf_eq c]
  rw [Misuse.checkAttribute, Misuse.checkAttribute]
  rcases h.kind_cases n with ⟨hc, hd⟩ | ⟨kind, kind', hc, hd, hk⟩
  · rw [hc, hd]
    rfl
  · rw [hc, hd]
    cases kind with
    | elementAttribute name value =>
      cases value with
      | none => cases hk <;> rfl
      | some value => cases hk <;> exact hvalue value
    | _ => cases hk <;> rfl

end Context.Mirrors

/-! ## The same numbers for nodes -/

namespace Context.Agrees

open Diagnostic (outlines)

variable {c d : Context}

/-- **The answers are the same if the tables are alike and the types of nodes interchangeable.** -/
theorem of_alike (h : c.classifier.Alike d.classifier) (hc : c.program.Valid)
    (root : d.tree.root = c.tree.root) (size : d.tree.size = c.tree.size)
    (kind : ∀ n, Option.Rel NodeKind.Alike (c.tree.kind? n) (d.tree.kind? n))
    (types : ∀ n, d.program.types.Interchangeable (c.program.typeAt n) (d.program.typeAt n))
    (contexts : ∀ n, Option.Rel d.program.types.Interchangeable (c.program.contextualType? n)
      (d.program.contextualType? n)) : c.Agrees d := by
  have hkind : ∀ n, Option.Rel (fun kind kind' => (kind.map id).Alike kind') (c.tree.kind? n)
      (d.tree.kind? n) := by
    simp only [NodeKind.map_id]
    exact kind
  exact .of_classifier h.mirrors root size Function.injective_id hkind hc.contains_typeAt
    hc.contains_contextualType? types contexts

theorem outlines_counterparts (d : Context) (ds : List Diagnostic) :
    outlines (ds.map (d.counterpart id)) = outlines ds := by
  rw [outlines, outlines, List.map_map]
  rfl

variable (h : c.Agrees d)

include h

theorem kind_cases (n : NodeId) : (c.tree.kind? n = none ∧ d.tree.kind? n = none) ∨
    ∃ kind kind', c.tree.kind? n = some kind ∧ d.tree.kind? n = some kind' ∧ kind.Alike kind' := by
  rcases Mirrors.kind_cases h n with hnone | ⟨kind, kind', hc, hd, hk⟩
  · exact Or.inl hnone
  · rw [NodeKind.map_id] at hk
    exact Or.inr ⟨kind, kind', hc, hd, hk⟩

theorem namesPredicate_eq {key : Key}
    (hliteral : ∀ n, key = .computed n →
      (∀ value, c.tree.kind? n ≠ some (.literal (.string value))) →
      (d.program.types.stringLiteral? (d.program.typeAt n)).any (· ∈ Misuse.predicateMethods) =
        (c.program.types.stringLiteral? (c.program.typeAt n)).any (· ∈ Misuse.predicateMethods)) :
    Misuse.namesPredicate d key = Misuse.namesPredicate c key := by
  rw [← Mirrors.namesPredicate_eq h hliteral, Key.map_id]

theorem outlines_predicate {callee : NodeId}
    (hname : ∀ {object : NodeId} {key : Key} {isOptional : Bool},
      c.tree.kind? (c.tree.skipChain callee) = some (.member object key isOptional) →
      Misuse.namesPredicate d key = Misuse.namesPredicate c key) (arguments : List NodeId) :
    outlines (Misuse.checkPredicate d callee arguments) =
      outlines (Misuse.checkPredicate c callee arguments) := by
  have heq := h.predicate_eq (fun {_ key _} hk => by rw [Key.map_id, hname hk]) arguments
  rw [List.map_id, id] at heq
  rw [heq, outlines_counterparts]

theorem outlines_property {object property : NodeId}
    (hmethod : ∀ {name : String} {value : NodeId},
      c.tree.kind? property = some (.property (.name name) value .method) →
      (d.program.contextualType? object).any (Misuse.expectsVoidMethod d name) =
        (c.program.contextualType? object).any (Misuse.expectsVoidMethod c name)) :
    outlines (Misuse.checkProperty d object property) =
      outlines (Misuse.checkProperty c object property) := by
  have heq := h.property_eq hmethod
  rw [id, id] at heq
  rw [heq, outlines_counterparts]

end Context.Agrees

end ResultLint
