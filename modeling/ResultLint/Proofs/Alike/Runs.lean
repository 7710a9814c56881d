import ResultLint.Proofs.Alike.Checks

/-!
# Runs that find alike

Two runs on trees of the same form call the rules at the mirrored nodes.  Three checks ask for more
than `Context.Mirrors` answers: whether a callee is a predicate method, and what a method is
expected to return by the object around it or by the heritage of its class.  How these compare is
left open (`Context.ComparedAlong`).  For every way to compare two lists of diagnostics that knows
counterparts and respects appending (`Context.ComparisonAlong`):

* `Mirrors.compared_check`: **what a rule finds at a hook compares**, if the three checks do.
* `Mirrors.run_compared`: **so does what is found in the two runs.**
* `Comparison.along`: with the same numbers for nodes, comparisons that go by outlines are such.
-/

namespace ResultLint

/-! ## Comparisons -/

/-- A way to compare what is found in two runs, the second on mirrored nodes. -/
structure Context.ComparisonAlong (g : NodeId → NodeId) (d : Context)
    (R : List Diagnostic → List Diagnostic → Prop) : Prop where
  counterparts : ∀ ds, R ds (ds.map (d.counterpart g))
  append : ∀ {ds es ds' es' : List Diagnostic}, R ds es → R ds' es' → R (ds ++ ds') (es ++ es')

/-- What is found compares, and the mirrored nodes are looked at. -/
structure Check.Compared (g : NodeId → NodeId) (R : List Diagnostic → List Diagnostic → Prop)
    (check check' : Check) : Prop where
  found : ∀ visits, R (check.run visits).1 (check'.run (visits.map (Prod.map id g))).1
  visits : ∀ visits, (check'.run (visits.map (Prod.map id g))).2 =
    (check.run visits).2.map (Prod.map id g)

/-- What was found compares, and the mirrored nodes were looked at. -/
structure Log.Compared (g : NodeId → NodeId) (R : List Diagnostic → List Diagnostic → Prop)
    (log log' : Log) : Prop where
  found : R log.diagnostics.toList log'.diagnostics.toList
  visits : log'.visits = log.visits.map (Prod.map id g)

theorem Check.Compared.pure {g : NodeId → NodeId} {R : List Diagnostic → List Diagnostic → Prop}
    {ds es : List Diagnostic} (h : R ds es) :
    Check.Compared g R (Pure.pure ds) (Pure.pure es) :=
  ⟨fun _ => h, fun _ => rfl⟩

namespace Context.ComparisonAlong

variable {g : NodeId → NodeId} {d : Context} {R : List Diagnostic → List Diagnostic → Prop}
  (hR : d.ComparisonAlong g R)

include hR

theorem nil : R [] [] := hR.counterparts []

theorem of_eq {ds es : List Diagnostic} (h : es = ds.map (d.counterpart g)) : R ds es := by
  rw [h]
  exact hR.counterparts ds

theorem flatMap {f f' : NodeId → List Diagnostic} {l : List NodeId}
    (h : ∀ n ∈ l, R (f n) (f' (g n))) : R (l.flatMap f) ((l.map g).flatMap f') := by
  induction l with
  | nil => exact hR.nil
  | cons n l ih =>
    rw [List.map_cons, List.flatMap_cons, List.flatMap_cons]
    exact hR.append (h n List.mem_cons_self) (ih fun m hm => h m (List.mem_cons_of_mem n hm))

theorem when (on : Bool) {ds es : List Diagnostic} (h : R ds es) :
    R (Misuse.when on ds) (Misuse.when on es) := by
  rw [Misuse.when, Misuse.when]
  split
  · exact h
  · exact hR.nil

theorem whenCheck (on : Bool) {check check' : Check} (h : Check.Compared g R check check') :
    Check.Compared g R (Misuse.whenCheck on check) (Misuse.whenCheck on check') := by
  rw [Misuse.whenCheck, Misuse.whenCheck]
  split
  · exact h
  · exact .pure hR.nil

theorem addRel {check check' : Check} (h : Check.Compared g R check check') :
    Log.AddRel (Log.Compared g R) [check] [check'] := by
  intro log log' hl
  refine ⟨?_, ?_⟩
  · show R (log.add check).diagnostics.toList (log'.add check').diagnostics.toList
    rw [Log.toList_diagnostics_add, Log.toList_diagnostics_add, hl.visits]
    exact hR.append hl.found (h.found _)
  · show (check'.run log'.visits).2 = (check.run log.visits).2.map _
    rw [hl.visits, h.visits]

theorem addRel_checksAt {rules : List Rule} {c e : Context} {hook hook' : Hook}
    (h : ∀ r ∈ rules, Check.Compared g R (r.check c hook) (r.check e hook')) :
    Log.AddRel (Log.Compared g R) (Rule.checksAt rules c hook) (Rule.checksAt rules e hook') := by
  rw [Rule.checksAt, Rule.checksAt, List.map_eq_flatMap, List.map_eq_flatMap]
  exact Log.AddRel.flatMap fun r hr => hR.addRel (h r hr)

end Context.ComparisonAlong

/-! ## Functions -/

/-- The hooks are the same, unless a function is a statement in one place and an expression in the
other. -/
theorem NodeKind.Alike.hooks_eq_or_function {kind kind' : NodeKind} (h : kind.Alike kind')
    (id : NodeId) :
    kind'.hooks id = kind.hooks id ∨ ∃ form form' name name' params body,
      kind = .function form name params body ∧ kind' = .function form' name' params body := by
  cases h with
  | function form form' name name' params body =>
    exact Or.inr ⟨form, form', name, name', params, body, rfl, rfl⟩
  | _ => exact Or.inl rfl

theorem NodeKind.hooks_function (form : FunctionForm) (name : Option String) (params : List NodeId)
    (body id : NodeId) :
    ∃ hook, (hook = .statement id ∨ hook = .expression id) ∧
      (NodeKind.function form name params body).hooks id = [hook] := by
  cases form with
  | declaration => exact ⟨_, Or.inl rfl, rfl⟩
  | expression => exact ⟨_, Or.inr rfl, rfl⟩
  | arrow => exact ⟨_, Or.inr rfl, rfl⟩

/-- At a function nothing is found, whichever of its two hooks is called. -/
theorem Rule.run_function {config : Config} {r : Rule} (hr : r ∈ config.rules) {c : Context}
    {n : NodeId} {form : FunctionForm} {name : Option String} {params : List NodeId} {body : NodeId}
    (hk : c.tree.kind? n = some (.function form name params body)) {hook : Hook}
    (hhook : hook = .statement n ∨ hook = .expression n) (visits : Visits) :
    (r.check c hook).run visits = ([], visits) := by
  have hconditions : Misuse.checkConditions c n = pure [] := by rw [Misuse.checkConditions, hk]
  have hvalues : Misuse.checkValues config.misuse c n = [] := by rw [Misuse.checkValues, hk]
  have hstatement : Misuse.checkStatement config.misuse c n = pure [] := by
    rw [Misuse.checkStatement, hk]
  have hfloating : Floating.checkStatement c n = [] := by rw [Floating.checkStatement, hk]
  rcases Rule.mem_rules_iff.1 hr with rfl | rfl
  · rcases hhook with rfl | rfl
    · show (pure (Floating.checkStatement c n) : Check).run visits = _
      rw [hfloating, run_pure]
    · exact run_pure [] visits
  · rcases hhook with rfl | rfl
    · show (Misuse.checkStatement config.misuse c n).run visits = _
      rw [hstatement, run_pure]
    · show (Misuse.checkExpression config.misuse c n).run visits = _
      rw [Misuse.checkExpression_run, hconditions, hvalues, Misuse.whenCheck, ite_self, run_pure,
        List.append_nil]

/-! ## Runs -/

/-- The three checks that ask for more than verdicts compare, wherever they are called. -/
structure Context.ComparedAlong (g : NodeId → NodeId)
    (R : List Diagnostic → List Diagnostic → Prop) (c d : Context) : Prop where
  predicate : ∀ {id callee : NodeId} {arguments : List NodeId} {isOptional : Bool},
    c.tree.Reaches c.tree.root id → c.tree.kind? id = some (.call callee arguments isOptional) →
    R (Misuse.checkPredicate c callee arguments)
      (Misuse.checkPredicate d (g callee) (arguments.map g))
  property : ∀ {id property : NodeId} {properties : List NodeId},
    c.tree.Reaches c.tree.root id → c.tree.kind? id = some (.objectLiteral properties) →
    property ∈ properties →
    R (Misuse.checkProperty c id property) (Misuse.checkProperty d (g id) (g property))
  inherited : ∀ {id member : NodeId} {kind : NodeKind} {heritage members : List NodeId},
    c.tree.Reaches c.tree.root id → c.tree.kind? id = some kind →
    kind.classLike? = some (heritage, members) → member ∈ members →
    R (Misuse.checkInherited c id member) (Misuse.checkInherited d (g id) (g member))

namespace Context.Mirrors

variable {g : NodeId → NodeId} {c d : Context} {R : List Diagnostic → List Diagnostic → Prop}
  (h : c.Mirrors g d) (hR : d.ComparisonAlong g R)

include h hR

theorem compared_condition (inTest : Bool) (n : NodeId) :
    Check.Compared g R (Misuse.checkCondition c inTest n)
      (Misuse.checkCondition d inTest (g n)) := by
  rw [Misuse.checkCondition, Misuse.checkCondition, h.size]
  exact ⟨fun visits => hR.of_eq (h.checkConditionWithin _ inTest n visits).1,
    fun visits => (h.checkConditionWithin _ inTest n visits).2⟩

theorem compared_conditions (n : NodeId) :
    Check.Compared g R (Misuse.checkConditions c n) (Misuse.checkConditions d (g n)) := by
  have hnone : Check.Compared g R (pure []) (pure []) := .pure hR.nil
  rw [Misuse.checkConditions, Misuse.checkConditions]
  rcases h.kind_cases n with ⟨hc, hd⟩ | ⟨kind, kind', hc, hd, hk⟩
  · rw [hc, hd]
    exact hnone
  · rw [hc, hd]
    cases kind with
    | conditional test consequent alternate =>
      cases hk
      exact h.compared_condition hR true test
    | logical operator left right =>
      cases hk
      exact h.compared_condition hR false n
    | unary operator argument =>
      cases hk
      cases operator with
      | not => exact h.compared_condition hR true argument
      | _ => exact hnone
    | _ => cases hk <;> exact hnone

theorem compared_statement (checks : MisuseChecks) (n : NodeId) :
    Check.Compared g R (Misuse.checkStatement checks c n)
      (Misuse.checkStatement checks d (g n)) := by
  have hnone : Check.Compared g R (pure []) (pure []) := .pure hR.nil
  have htest : ∀ test : NodeId,
      Check.Compared g R (Misuse.whenCheck checks.conditionals (Misuse.checkCondition c true test))
        (Misuse.whenCheck checks.conditionals (Misuse.checkCondition d true (g test))) :=
    fun test => hR.whenCheck _ (h.compared_condition hR true test)
  rw [Misuse.checkStatement, Misuse.checkStatement]
  rcases h.kind_cases n with ⟨hc, hd⟩ | ⟨kind, kind', hc, hd, hk⟩
  · rw [hc, hd]
    exact hnone
  · rw [hc, hd]
    cases kind with
    | ifElse test consequent alternate =>
      cases hk
      exact htest test
    | whileLoop test body =>
      cases hk
      exact htest test
    | doWhileLoop body test =>
      cases hk
      exact htest test
    | forLoop init test update body =>
      cases hk
      cases test with
      | none => exact hnone
      | some test => exact htest test
    | returnStatement argument =>
      cases hk
      cases argument with
      | none => exact hnone
      | some argument => exact .pure (hR.when _ (hR.of_eq (h.return_eq argument)))
    | variableDeclaration declarators =>
      cases hk
      exact .pure (hR.when _ (hR.flatMap fun n _ => hR.of_eq (h.declarator_eq n)))
    | _ => cases hk <;> exact hnone

theorem compared_attributes (on : Bool) (attributes : List NodeId) :
    R (Misuse.when on (attributes.flatMap (Misuse.checkAttribute c)))
      (Misuse.when on ((attributes.map g).flatMap (Misuse.checkAttribute d))) :=
  hR.when on (hR.flatMap fun n _ => hR.of_eq (h.attribute_eq n))

variable (hs : Context.ComparedAlong g R c d)

include hs

theorem compared_values (checks : MisuseChecks) {n : NodeId}
    (hn : c.tree.Reaches c.tree.root n) :
    R (Misuse.checkValues checks c n) (Misuse.checkValues checks d (g n)) := by
  rw [Misuse.checkValues, Misuse.checkValues]
  rcases h.kind_cases n with ⟨hc, hd⟩ | ⟨kind, kind', hc, hd, hk⟩
  · rw [hc, hd]
    exact hR.nil
  · rw [hc, hd]
    cases kind with
    | call callee arguments isOptional =>
      have harguments := h.arguments_eq .call callee (some arguments)
      have hcall := hR.append (hR.when checks.voidReturn.arguments (hR.of_eq harguments))
        (hR.when checks.predicates (hs.predicate hn hc))
      cases hk <;> exact hcall
    | construct callee arguments =>
      cases hk
      exact hR.when _ (hR.of_eq (h.arguments_eq .construct callee arguments))
    | assignment operator left right =>
      cases hk <;> exact hR.when _ (hR.of_eq (h.assignment_eq left right))
    | objectLiteral properties =>
      cases hk
      exact hR.append (hR.when _ (hR.flatMap fun property hp => hs.property hn hc hp))
        (hR.when _ (hR.of_eq (h.spreads_eq properties)))
    | arrayLiteral elements =>
      cases hk
      exact hR.when _ (hR.of_eq (h.spreads_eq elements))
    | element name attributes children =>
      cases hk <;> exact h.compared_attributes hR _ attributes
    | _ => cases hk <;> exact hR.nil

theorem compared_expression (checks : MisuseChecks) {n : NodeId}
    (hn : c.tree.Reaches c.tree.root n) :
    Check.Compared g R (Misuse.checkExpression checks c n)
      (Misuse.checkExpression checks d (g n)) := by
  have hconditions := hR.whenCheck checks.conditionals (h.compared_conditions hR n)
  constructor
  · intro visits
    rw [Misuse.checkExpression_run, Misuse.checkExpression_run]
    exact hR.append (hconditions.found visits) (h.compared_values hR hs checks hn)
  · intro visits
    rw [Misuse.checkExpression_run, Misuse.checkExpression_run]
    exact hconditions.visits visits

/-- **What a rule finds at a hook compares.** -/
theorem compared_check {config : Config} {r : Rule} (hr : r ∈ config.rules) {n : NodeId}
    (hn : c.tree.Reaches c.tree.root n) {hook : Hook} (hhook : c.tree.HookOf n hook) :
    Check.Compared g R (r.check c hook) (r.check d (hook.map g)) := by
  have hnone : Check.Compared g R (pure []) (pure []) := .pure hR.nil
  rcases Rule.mem_rules_iff.1 hr with rfl | rfl
  · cases hhook with
    | statement _ _ => exact .pure (hR.of_eq (h.floating_eq n))
    | expression _ _ => exact hnone
    | classMember _ _ _ => exact hnone
  · cases hhook with
    | statement _ _ => exact h.compared_statement hR config.misuse n
    | expression _ _ => exact h.compared_expression hR hs config.misuse hn
    | classMember hk hc hm => exact .pure (hR.when _ (hs.inherited hn hk hc hm))

variable {config : Config} {rules : List Rule} (hrules : ∀ r ∈ rules, r ∈ config.rules)

include hrules

/-- **What the rules find at the hooks of a node compares**, also at a function that has one hook in
the one tree and the other in the other. -/
theorem addRel_hooks {n : NodeId} (hn : c.tree.Reaches c.tree.root n) {kind kind' : NodeKind}
    (hc : c.tree.kind? n = some kind) (hd : d.tree.kind? (g n) = some kind')
    (hk : (kind.map g).Alike kind') :
    Log.AddRel (Log.Compared g R) ((kind.hooks n).flatMap (Rule.checksAt rules c))
      ((kind'.hooks (g n)).flatMap (Rule.checksAt rules d)) := by
  rcases hk.hooks_eq_or_function (g n) with
    heq | ⟨form, form', name, name', params, body, hfunction, rfl⟩
  · rw [heq, NodeKind.hooks_map, List.flatMap_map]
    refine Log.AddRel.flatMap fun hook hhook => hR.addRel_checksAt fun r hr => ?_
    refine h.compared_check hR hs (hrules r hr) hn (Tree.hookOf_of_mem_hooks ?_)
    rwa [Tree.hooks_of_kind? hc]
  · -- neither hook of a function finds anything, so it does not matter which of them is called
    cases kind with
    | function form name params body =>
      obtain ⟨hook, hhook, hc'⟩ := NodeKind.hooks_function form name params body n
      obtain ⟨hook', hhook', hd'⟩ := NodeKind.hooks_function form' name' _ _ (g n)
      rw [hc', hd', List.flatMap_singleton, List.flatMap_singleton]
      refine hR.addRel_checksAt fun r hr => ⟨fun visits => ?_, fun visits => ?_⟩
      · rw [Rule.run_function (hrules r hr) hc hhook, Rule.run_function (hrules r hr) hd hhook']
        exact hR.nil
      · rw [Rule.run_function (hrules r hr) hc hhook, Rule.run_function (hrules r hr) hd hhook']
    | _ => cases hfunction

/-- **What is found below mirrored nodes compares**, however deep the two visits go. -/
theorem visit_compared (depth : Nat) {n : NodeId} (hn : c.tree.Reaches c.tree.root n)
    {log log' : Log} (hl : Log.Compared g R log log') :
    Log.Compared g R (c.tree.visitWithin (Rule.visitor rules c) depth n log)
      (d.tree.visitWithin (Rule.visitor rules d) depth (g n) log') := by
  induction depth generalizing n log log' with
  | zero => exact hl
  | succ depth ih =>
    rcases h.kind_cases n with ⟨hc, hd⟩ | ⟨kind, kind', hc, hd, hk⟩
    · rw [Tree.visitWithin, Tree.visitWithin, Option.map_eq_none_iff.1 hc,
        Option.map_eq_none_iff.1 hd]
      exact hl
    · obtain ⟨node, hnode, rfl⟩ := Option.map_eq_some_iff.1 hc
      obtain ⟨node', hnode', rfl⟩ := Option.map_eq_some_iff.1 hd
      rw [Tree.visitWithin_of_get? hnode, Tree.visitWithin_of_get? hnode', Rule.enter_visitor hc,
        Rule.enter_visitor hd, if_pos rfl, if_pos rfl, hk.children_eq, NodeKind.children_map,
        List.foldl_map]
      refine List.foldl_rel (h.addRel_hooks hR hs hrules hn hc hd hk _ _ hl) ?_
      intro child hchild _ _ hlogs
      exact ih (hn.part hc (NodeKind.mem_children_iff.1 hchild)) hlogs

omit hrules

/-- **What is found in the two runs compares.** -/
theorem run_compared (config : Config) :
    R (Rule.run config.activeRules c) (Rule.run config.activeRules d) := by
  have hrules : ∀ r ∈ config.activeRules, r ∈ config.rules := fun r hr => List.mem_of_mem_filter hr
  have hprogram : Log.AddRel (Log.Compared g R)
      (config.activeRules.map (·.checkProgram c c.tree.root))
      (config.activeRules.map (·.checkProgram d d.tree.root)) := by
    rw [List.map_eq_flatMap, List.map_eq_flatMap]
    refine Log.AddRel.flatMap fun r hr => hR.addRel ?_
    rcases Rule.mem_rules_iff.1 (hrules r hr) with rfl | rfl <;> exact .pure hR.nil
  have hlogs := hprogram {} {} ⟨hR.nil, rfl⟩
  rw [Rule.run, Rule.run, Tree.visit, Tree.visit, h.size]
  have hvisit := h.visit_compared hR hs hrules c.tree.size .refl hlogs
  rw [← h.root] at hvisit
  exact hvisit.found

end Context.Mirrors

/-! ## The same numbers for nodes -/

/-- A way to compare what is found in two runs that goes by outlines. -/
structure Comparison (R : List Diagnostic → List Diagnostic → Prop) : Prop where
  of_outlines : ∀ {ds es : List Diagnostic},
    Diagnostic.outlines es = Diagnostic.outlines ds → R ds es
  append : ∀ {ds es ds' es' : List Diagnostic}, R ds es → R ds' es' → R (ds ++ ds') (es ++ es')

namespace Comparison

variable {R : List Diagnostic → List Diagnostic → Prop} (hR : Comparison R)

include hR

theorem refl (ds : List Diagnostic) : R ds ds := hR.of_outlines rfl

theorem along (d : Context) : d.ComparisonAlong id R where
  counterparts ds := hR.of_outlines (Context.Agrees.outlines_counterparts d ds)
  append := hR.append

end Comparison

/-! ## Places -/

theorem Context.Agrees.refl (c : Context) : c.Agrees c where
  root := rfl
  size := rfl
  injective := Function.injective_id
  kind n := by
    simp only [NodeKind.map_id]
    exact rel_self NodeKind.Alike.refl (c.tree.kind? n)
  sometimes _ := rfl
  always _ := rfl
  arrayOrTuple _ := rfl
  array _ := rfl
  returnsResult _ := rfl
  voidType _ := rfl
  voidContext _ := rfl
  voidArguments _ _ _ _ := Iff.rfl

/-- **A diagnostic has the place of its node.**  A run is its own mirror, and the counterpart of a
diagnostic has the place of its node. -/
theorem Context.span_of_mem_run {c : Context} {config : Config} {x : Diagnostic}
    (hx : x ∈ Rule.run config.activeRules c) : x.span = c.tree.span x.node := by
  have hm := Agrees.refl c
  have hR : c.ComparisonAlong id fun ds es => es = ds.map (c.counterpart id) := by
    refine ⟨fun _ => rfl, fun {ds es ds' es'} h h' => ?_⟩
    rw [h, h', List.map_append]
  have hself : Context.ComparedAlong id (fun ds es => es = ds.map (c.counterpart id)) c c := by
    refine ⟨fun {_ _ arguments _} _ _ => ?_, fun _ _ _ => ?_, fun _ _ _ _ => ?_⟩
    · exact hm.predicate_eq (fun {_ key _} _ => by rw [Key.map_id]) arguments
    · exact hm.property_eq fun _ => rfl
    · rw [id, id, Misuse.checkInherited]
      split
      · split
        · rw [List.map_map]
          rfl
        · rfl
      · rfl
  have hrun : Rule.run config.activeRules c =
      (Rule.run config.activeRules c).map (c.counterpart id) := hm.run_compared hR hself config
  have hsame : c.counterpart id x = id x :=
    List.map_inj_left.1 (hrun.symm.trans (List.map_id _).symm) x hx
  exact congrArg Diagnostic.span hsame.symm

end ResultLint
