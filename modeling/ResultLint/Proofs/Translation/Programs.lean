import ResultLint.Proofs.Alike.Methods

/-!
# Programs under other numbers

A program **translates** into another if its types and its nodes stand there under other numbers,
with all references changed accordingly.  Nothing that is reported depends on numbers, apart from
the numbers of the nodes that are reported.

* `Translates.mirrors`: all questions about the types of nodes have the same answers.
* `filter_collected`: types that are collected each once are the same ones, apart from those that
  nothing is asked of.
* `Translates.lint_eq`: **the report is the same, with the new numbers of nodes.**
-/

namespace ResultLint

/-- Every node of `p` stands in `q` under its new number, with other numbers for its parts and
types. -/
structure Program.Translates (f : TypeId → TypeId) (g : NodeId → NodeId) (p q : Program) :
    Prop where
  types : p.types.Translates f q.types
  root : q.tree.root = g p.tree.root
  size : q.tree.size = p.tree.size
  injective : Function.Injective g
  node : ∀ n, q.tree.get? (g n) = (p.tree.get? n).map (·.map f g)
  type : ∀ {n : NodeId} {node : Node} {r : TypeId}, p.tree.get? n = some node →
    node.type = some r → p.types.Known f r
  contextualType : ∀ {n : NodeId} {node : Node} {r : TypeId}, p.tree.get? n = some node →
    node.contextualType = some r → p.types.Known f r

/-! ## Types that are collected -/

/-- Types are collected each once.  If `f` keeps those apart that something holds of, the same ones
are collected under their new numbers. -/
theorem filter_collected {f : TypeId → TypeId} {P Q : TypeId → Bool} {S : TypeId → Prop}
    (hQ : ∀ r, S r → Q (f r) = P r)
    (hinjective : ∀ a b, S a → S b → P a = true → P b = true → f a = f b → a = b)
    {types ids ids' : List TypeId} (htypes : ∀ r ∈ types, S r) (hids : ∀ r ∈ ids, S r)
    (hsame : ids'.filter Q = (ids.filter P).map f) :
    ((types.map f).foldl (fun ids id => if id ∈ ids then ids else ids ++ [id]) ids').filter Q =
      ((types.foldl (fun ids id => if id ∈ ids then ids else ids ++ [id]) ids).filter P).map f := by
  induction types generalizing ids ids' with
  | nil => exact hsame
  | cons r types ih =>
    have hr : S r := htypes r List.mem_cons_self
    have hrest : ∀ s ∈ types, S s := fun s hs => htypes s (List.mem_cons_of_mem r hs)
    have hnext : ∀ s ∈ (if r ∈ ids then ids else ids ++ [r]), S s := by
      intro s hs
      split at hs
      · exact hids s hs
      · rcases List.mem_append.1 hs with hs | hs
        · exact hids s hs
        · rwa [List.mem_singleton.1 hs]
    rw [List.map_cons, List.foldl_cons, List.foldl_cons]
    refine ih hrest hnext ?_
    cases hp : P r with
    | false =>
      -- whether `r` is added or not, it is not asked for
      have hq : Q (f r) = false := (hQ r hr).trans hp
      have hleft : (if f r ∈ ids' then ids' else ids' ++ [f r]).filter Q = ids'.filter Q := by
        split
        · rfl
        · simp [hq]
      have hright : (if r ∈ ids then ids else ids ++ [r]).filter P = ids.filter P := by
        split
        · rfl
        · simp [hp]
      rw [hleft, hright, hsame]
    | true =>
      have hq : Q (f r) = true := (hQ r hr).trans hp
      have hmem : f r ∈ ids' ↔ r ∈ ids := by
        have hfilter : f r ∈ ids' ↔ f r ∈ ids'.filter Q := by
          rw [List.mem_filter, hq]
          exact (and_iff_left rfl).symm
        rw [hfilter, hsame]
        constructor
        · intro h
          obtain ⟨s, hs, heq⟩ := List.mem_map.1 h
          obtain ⟨hs, hps⟩ := List.mem_filter.1 hs
          rwa [← hinjective s r (hids s hs) hr hps hp heq]
        · intro h
          exact List.mem_map_of_mem (List.mem_filter.2 ⟨h, hp⟩)
      by_cases h : r ∈ ids
      · rw [if_pos h, if_pos (hmem.2 h), hsame]
      · rw [if_neg h, if_neg (mt hmem.1 h), List.filter_append, List.filter_append, hsame,
          List.map_append, List.filter_singleton, List.filter_singleton, hp, hq]
        rfl

namespace Program.Translates

variable {f : TypeId → TypeId} {g : NodeId → NodeId} {p q : Program} (h : p.Translates f g q)

include h

/-! ## Questions about nodes -/

theorem kind?_eq (n : NodeId) : q.tree.kind? (g n) = (p.tree.kind? n).map (·.map g) := by
  rw [Tree.kind?, Tree.kind?, h.node, Option.map_map, Option.map_map]
  rfl

theorem span_eq (n : NodeId) : q.tree.span (g n) = p.tree.span n := by
  rw [Tree.span, Tree.span, h.node, Option.map_map]
  rfl

theorem typeAt_eq (n : NodeId) : q.typeAt (g n) = f (p.typeAt n) := by
  rw [typeAt, typeAt, h.node]
  cases p.tree.get? n with
  | none => exact h.types.fixed.symm
  | some node =>
    rw [Option.map_some, Option.bind_some, Option.bind_some, Node.map]
    cases node.type with
    | none => exact h.types.fixed.symm
    | some r => rfl

theorem contextualType?_eq (n : NodeId) :
    q.contextualType? (g n) = (p.contextualType? n).map f := by
  rw [contextualType?, contextualType?, h.node]
  cases p.tree.get? n <;> rfl

theorem known_typeAt (n : NodeId) : p.types.Known f (p.typeAt n) := by
  rw [typeAt]
  cases hn : p.tree.get? n with
  | none => exact h.types.known_unknown
  | some node =>
    rw [Option.bind_some]
    cases ht : node.type with
    | none => exact h.types.known_unknown
    | some r => exact h.type hn ht

theorem known_contextualType? {n : NodeId} {r : TypeId} (hr : p.contextualType? n = some r) :
    p.types.Known f r := by
  obtain ⟨node, hn, hc⟩ := Option.bind_eq_some_iff.1 hr
  exact h.contextualType hn hc

variable (shape : ResultShape)

/-- **All questions about the types of nodes have the same answers.** -/
theorem mirrors : Context.Mirrors g ⟨p, shape⟩ ⟨q, shape⟩ := by
  refine .of_classifier (.of_translates h.types shape) h.root h.size h.injective (fun n => ?_)
    h.known_typeAt h.known_contextualType? (fun n => ?_) fun n => ?_
  · show Option.Rel _ (p.tree.kind? n) (q.tree.kind? (g n))
    rw [h.kind?_eq]
    cases p.tree.kind? n with
    | none => exact .none
    | some kind => exact .some (.refl _)
  · show q.types.Interchangeable (f (p.typeAt n)) (q.typeAt (g n))
    rw [h.typeAt_eq]
    exact .refl _ _
  · show Option.Rel _ (p.contextualType? n) (q.contextualType? (g n))
    rw [h.contextualType?_eq]
    cases p.contextualType? n with
    | none => exact .none
    | some r => exact .some (.refl _ _)

/-! ## Methods -/

omit h in
/-- The first property of a name is that of the first object that has one. -/
theorem apparentProperty?_eq_objects (c : Context) (id : TypeId) (name : String) :
    c.apparentProperty? id name =
      ((c.program.types.apparentMembers id).filterMap c.program.types.object?).findSome?
        (·.property? name) := by
  rw [Context.apparentProperty?, ← List.head?_filterMap, ← List.head?_filterMap,
    List.filterMap_filterMap]
  rfl

theorem apparentProperty?_eq {r : TypeId} (hr : p.types.Known f r) (name : String) :
    Context.apparentProperty? ⟨q, shape⟩ (f r) name =
      (Context.apparentProperty? ⟨p, shape⟩ r name).map f := by
  rw [apparentProperty?_eq_objects, apparentProperty?_eq_objects]
  show (((q.types.apparentMembers (f r)).filterMap q.types.object?).findSome? _) =
    (((p.types.apparentMembers r).filterMap p.types.object?).findSome? _).map f
  rw [h.types.objects_eq hr, List.findSome?_map, List.map_findSome?]
  refine congrArg (List.findSome? · _) (funext fun o => ?_)
  exact o.property?_map f name

theorem expectsVoidMethod_eq {r : TypeId} (hr : p.types.Known f r) (name : String) :
    Misuse.expectsVoidMethod ⟨q, shape⟩ name (f r) =
      Misuse.expectsVoidMethod ⟨p, shape⟩ name r :=
  Context.expectsVoidMethod_of_property (.of_translates h.types shape)
    (h.apparentProperty?_eq shape hr name)

/-- Only types of the table expect anything of a method. -/
theorem contains_of_expectsVoidMethod {r : TypeId} (hr : p.types.Known f r) {name : String}
    (hv : Misuse.expectsVoidMethod ⟨p, shape⟩ name r = true) : p.types.contains r = true := by
  refine hr.resolve_right fun hunknown => ?_
  rw [← h.expectsVoidMethod_eq shape hr, hunknown] at hv
  have hnone : Misuse.expectsVoidMethod ⟨q, shape⟩ name .unknown = false :=
    Context.expectsVoidMethod_unknown h.types.get?_unknown
  rw [hnone] at hv
  cases hv

theorem parents_eq (heritage : List NodeId) (name : String) :
    (Misuse.heritageTypes ⟨q, shape⟩ (heritage.map g)).filter
        (Misuse.expectsVoidMethod ⟨q, shape⟩ name) =
      ((Misuse.heritageTypes ⟨p, shape⟩ heritage).filter
        (Misuse.expectsVoidMethod ⟨p, shape⟩ name)).map f := by
  have htypes : (heritage.map g).map q.typeAt = (heritage.map p.typeAt).map f := by
    rw [List.map_map, List.map_map]
    exact List.map_congr_left fun n _ => h.typeAt_eq n
  rw [Misuse.heritageTypes, Misuse.heritageTypes]
  show List.filter _ (List.foldl _ [] ((heritage.map g).map q.typeAt)) = _
  rw [htypes]
  refine filter_collected (fun r hr => h.expectsVoidMethod_eq shape hr name) ?_ ?_ ?_ rfl
  · intro a b ha hb hva hvb heq
    exact h.types.injective (h.contains_of_expectsVoidMethod shape ha hva)
      (h.contains_of_expectsVoidMethod shape hb hvb) heq
  · intro r hr
    obtain ⟨n, _, rfl⟩ := List.mem_map.1 hr
    exact h.known_typeAt n
  · intro r hr
    exact absurd hr List.not_mem_nil

theorem inherited_eq (declaration member : NodeId) :
    Misuse.checkInherited ⟨q, shape⟩ (g declaration) (g member) =
      (Misuse.checkInherited ⟨p, shape⟩ declaration member).map
        (Context.counterpart ⟨q, shape⟩ g) := by
  have hreport : ∀ r, p.types.Known f r →
      Context.report ⟨q, shape⟩ Misuse.info
          (.voidReturnInheritedMethod (q.types.display (f r))) (g member) =
        Context.counterpart ⟨q, shape⟩ g (Context.report ⟨p, shape⟩ Misuse.info
          (.voidReturnInheritedMethod (p.types.display r)) member) := by
    intro r hr
    rw [h.types.display_eq hr]
    rfl
  have hparents : ∀ (heritage : List NodeId) (name : String),
      ((Misuse.heritageTypes ⟨q, shape⟩ (heritage.map g)).filter
          (Misuse.expectsVoidMethod ⟨q, shape⟩ name)).map (fun parent =>
            Context.report ⟨q, shape⟩ Misuse.info
              (.voidReturnInheritedMethod (q.types.display parent)) (g member)) =
        (((Misuse.heritageTypes ⟨p, shape⟩ heritage).filter
          (Misuse.expectsVoidMethod ⟨p, shape⟩ name)).map fun parent =>
            Context.report ⟨p, shape⟩ Misuse.info
              (.voidReturnInheritedMethod (p.types.display parent)) member).map
          (Context.counterpart ⟨q, shape⟩ g) := by
    intro heritage name
    rw [h.parents_eq, List.map_map, List.map_map]
    refine List.map_congr_left fun r hr => hreport r ?_
    obtain ⟨clause, _, rfl⟩ := Misuse.mem_heritageTypes_iff.1 (List.mem_filter.1 hr).1
    exact h.known_typeAt clause
  have hreturns : Context.returnsResult ⟨q, shape⟩ (g member) =
      Context.returnsResult ⟨p, shape⟩ member := (h.mirrors shape).returnsResult member
  have hkind : ∀ n, (Context.tree ⟨q, shape⟩).kind? (g n) =
      ((Context.tree ⟨p, shape⟩).kind? n).map (·.map g) := h.kind?_eq
  rw [Misuse.checkInherited, Misuse.checkInherited, hreturns, hkind, hkind]
  cases (Context.tree ⟨p, shape⟩).kind? declaration with
  | none => rfl
  | some kind =>
    rw [Option.map_some, Option.bind_some, Option.bind_some, kind.classLike?_map]
    cases kind.classLike? with
    | none => rfl
    | some parts =>
      cases (Context.tree ⟨p, shape⟩).kind? member with
      | none => rfl
      | some memberKind =>
        cases memberKind with
        | classMember key form value isStatic =>
          cases key with
          | computed n => rfl
          | name name =>
            cases isStatic with
            | true => rfl
            | false =>
              show (if _ then _ else _) = (if _ then _ else _ : List Diagnostic).map _
              split
              · exact hparents parts.1 name
              · rfl
        | _ => rfl

/-! ## Reports -/

/-- The checks that ask for names and methods find the counterparts. -/
theorem comparedAlong : Context.ComparedAlong g
    (fun ds es => es = ds.map (Context.counterpart ⟨q, shape⟩ g)) ⟨p, shape⟩ ⟨q, shape⟩ where
  predicate := by
    intro id callee arguments isOptional _ _
    refine (h.mirrors shape).predicate_eq (fun _ => (h.mirrors shape).namesPredicate_eq ?_) _
    intro n _ _
    show (q.types.stringLiteral? (q.typeAt (g n))).any _ =
      (p.types.stringLiteral? (p.typeAt n)).any _
    have halike : TypeTable.AlikeAt f Eq p.types q.types (p.typeAt n) (f (p.typeAt n)) :=
      h.types.alikeAt (fun _ => rfl) (h.known_typeAt n)
    rw [h.typeAt_eq, halike.stringLiteral?_eq]
  property := by
    intro id property properties _ _ _
    refine (h.mirrors shape).property_eq fun {name} _ _ => ?_
    show (q.contextualType? (g id)).any _ = (p.contextualType? id).any _
    rw [h.contextualType?_eq]
    cases hr : p.contextualType? id with
    | none => rfl
    | some r => exact h.expectsVoidMethod_eq shape (h.known_contextualType? hr) name
  inherited _ _ _ _ := h.inherited_eq shape _ _

/-- **The report is the same, with the new numbers of nodes.** -/
theorem lint_eq (config : Config) :
    config.lint q = (config.lint p).map fun d => { d with node := g d.node } := by
  have hR : Context.ComparisonAlong g ⟨q, config.shape⟩
      fun ds es => es = ds.map (Context.counterpart ⟨q, config.shape⟩ g) := by
    refine ⟨fun _ => rfl, fun {ds es ds' es'} hds hds' => ?_⟩
    rw [hds, hds', List.map_append]
  have hrun : Rule.run config.activeRules ⟨q, config.shape⟩ =
      (Rule.run config.activeRules ⟨p, config.shape⟩).map
        (Context.counterpart ⟨q, config.shape⟩ g) :=
    (h.mirrors config.shape).run_compared hR (h.comparedAlong config.shape) config
  rw [Config.lint, Config.lint, hrun, List.map_map, List.map_map]
  refine List.map_congr_left fun d hd => ?_
  have hspan : q.tree.span (g d.node) = d.span :=
    (h.span_eq d.node).trans (Context.span_of_mem_run hd).symm
  show config.applySeverity { d with node := g d.node, span := q.tree.span (g d.node) } = _
  rw [hspan]
  rfl

end Program.Translates

end ResultLint
