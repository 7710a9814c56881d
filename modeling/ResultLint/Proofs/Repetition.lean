import ResultLint.Proofs.Conditions.Reports
import ResultLint.Proofs.Document.RoundTrip
import ResultLint.Proofs.Locality

/-!
# Reports are not repeated

A check has a kind of its own, so two diagnostics of one kind on one node say the same thing twice.
Conditions are remembered, and are reported once whatever the tree looks like.  Everything else is
reported once because its hook is met once, which takes a tree that shares nothing.  A method is
reported once for each type that a class inherits it from, and two such types can have the same
name.

* `count_answers_le`: what holds of the one call that makes a report holds of the run.
* `reports_distinct`: **reports are not repeated**, if nothing is shared.
-/

namespace ResultLint

open Diagnostic (keys keys_append count_keys_eq_zero)

/-! ## One call -/

/-- **What holds of the one call that makes a report holds of the run.** -/
theorem Check.count_answers_le {α : Type} {check : α → Check} {k : DiagnosticKind × NodeId}
    {bound : Nat} {calls : List α} (hnodup : calls.Nodup)
    (heach : ∀ x ∈ calls, ∀ visits, (keys ((check x).run visits).1).count k ≤ bound)
    (hone : ∀ x ∈ calls, ∀ y ∈ calls, ∀ visits visits', k ∈ keys ((check x).run visits).1 →
      k ∈ keys ((check y).run visits').1 → x = y) (visits : Visits) :
    (keys (Check.answers (calls.map check) visits).flatten).count k ≤ bound := by
  induction calls generalizing visits with
  | nil => exact Nat.zero_le _
  | cons x calls ih =>
    obtain ⟨hx, hnodup⟩ := List.nodup_cons.1 hnodup
    rw [List.map_cons, Check.answers, List.flatten_cons, keys_append, List.count_append]
    by_cases hk : k ∈ keys ((check x).run visits).1
    · have hrest : (keys (Check.answers (calls.map check)
          ((check x).run visits).2).flatten).count k = 0 := by
        rw [List.count_eq_zero]
        intro hk'
        obtain ⟨d, hd, hkey⟩ := List.mem_map.1 hk'
        obtain ⟨y, hy, visits', hd⟩ := Check.exists_of_mem_answers hd
        have hxy : x = y := hone x List.mem_cons_self y (List.mem_cons_of_mem x hy) visits visits'
          hk (List.mem_map.2 ⟨d, hd, hkey⟩)
        exact hx (hxy ▸ hy)
      rw [hrest]
      exact heach x List.mem_cons_self visits
    · rw [List.count_eq_zero.2 hk, Nat.zero_add]
      exact ih hnodup (fun y hy => heach y (List.mem_cons_of_mem x hy))
        (fun y hy z hz => hone y (List.mem_cons_of_mem x hy) z (List.mem_cons_of_mem x hz)) _

/-! ## Lists of reports -/

namespace Misuse

variable {c : Context}

theorem nodup_keys_when {on : Bool} {ds : List Diagnostic} (h : (keys ds).Nodup) :
    (keys (when on ds)).Nodup := by
  cases on with
  | false => exact List.nodup_nil
  | true => exact h

theorem nodup_keys_reportIf (condition : Bool) (kind : DiagnosticKind) (node : NodeId) :
    (keys (reportIf c condition kind node)).Nodup := by
  cases condition with
  | false => exact List.nodup_nil
  | true => exact List.nodup_singleton _

theorem nodup_keys_map_report {nodes : List NodeId} (h : nodes.Nodup) (kind : DiagnosticKind) :
    (keys (nodes.map (c.report info kind))).Nodup := by
  have hkeys : keys (nodes.map (c.report info kind)) = nodes.map fun n => (kind, n) := by
    rw [keys, List.map_map]
    rfl
  rw [hkeys]
  exact h.map fun a b hab => (Prod.mk.inj hab).2

/-- Reports of two kinds do not repeat each other. -/
theorem nodup_keys_append {ds es : List Diagnostic} {kind kind' : DiagnosticKind}
    (hne : kind ≠ kind') (hd : ∀ d ∈ ds, d.kind = kind) (he : ∀ e ∈ es, e.kind = kind')
    (hds : (keys ds).Nodup) (hes : (keys es).Nodup) : (keys (ds ++ es)).Nodup := by
  rw [keys_append]
  refine hds.append hes ?_
  intro k hk hk'
  obtain ⟨d, hdmem, rfl⟩ := List.mem_map.1 hk
  obtain ⟨e, hemem, hkey⟩ := List.mem_map.1 hk'
  have hkind : e.kind = d.kind := congrArg Prod.fst hkey
  rw [hd d hdmem, he e hemem] at hkind
  exact hne hkind.symm

theorem nodup_keys_checkArguments {arguments : Option (List NodeId)}
    (h : (arguments.getD []).Nodup) (kind : CallKind) (callee : NodeId) :
    (keys (checkArguments c kind callee arguments)).Nodup := by
  apply nodup_keys_map_report
  rw [← List.zipIdx_map_fst 0 (arguments.getD [])] at h
  exact h.sublist (List.filter_sublist.map _)

variable (hu : c.tree.Unshared c.tree.root)

include hu

/-- The reports on what carriers carry, one carrier after another. -/
theorem nodup_keys_flatMap {carriers : List NodeId} {found : NodeId → List Diagnostic}
    (hnodup : carriers.Nodup) (hreach : ∀ w ∈ carriers, c.tree.Reaches c.tree.root w)
    (hchild : ∀ w d, d ∈ found w → c.tree.Child w d.node) (heach : ∀ w, (keys (found w)).Nodup) :
    (keys (carriers.flatMap found)).Nodup := by
  rw [keys, List.map_flatMap, List.nodup_flatMap]
  refine ⟨fun w _ => heach w, hnodup.imp_of_mem ?_⟩
  intro w w' hw hw' hne k hk hk'
  obtain ⟨d, hd, rfl⟩ := List.mem_map.1 hk
  obtain ⟨d', hd', hkey⟩ := List.mem_map.1 hk'
  have hnode : d'.node = d.node := congrArg Prod.snd hkey
  have hchild' := hchild w' d' hd'
  rw [hnode] at hchild'
  exact hne (hu.unique (hreach w hw) (hreach w' hw') (hchild w d hd) hchild')

theorem nodup_keys_checkSpreads {entries : List NodeId} (hnodup : entries.Nodup)
    (hreach : ∀ w ∈ entries, c.tree.Reaches c.tree.root w) :
    (keys (checkSpreads c entries)).Nodup := by
  apply nodup_keys_map_report
  apply List.Nodup.filter
  rw [List.Nodup, List.pairwise_filterMap]
  refine hnodup.imp_of_mem ?_
  intro w w' hw hw' hne n hn n' hn' hnn
  subst hnn
  have hk := kind?_of_spreadArgument? hn
  have hk' := kind?_of_spreadArgument? hn'
  exact hne (hu.unique (hreach w hw) (hreach w' hw') (Tree.child_of_kind? hk (.spreadArgument n))
    (Tree.child_of_kind? hk' (.spreadArgument n)))

theorem nodup_keys_checkValues {checks : MisuseChecks} {id : NodeId}
    (hid : c.tree.Reaches c.tree.root id) : (keys (checkValues checks c id)).Nodup := by
  rw [checkValues]
  split
  next callee arguments isOptional hk =>
    have hnodup := hu.nodup hid
    rw [Tree.children_of_kind? hk] at hnodup
    have harguments : ((some arguments).getD []).Nodup := (List.nodup_cons.1 hnodup).2
    have hne : DiagnosticKind.voidReturnArgument ≠ .predicate := by decide
    refine nodup_keys_append hne (fun d hd => (from_checkArguments (mem_of_mem_when hd)).kind)
      (fun d hd => (from_checkPredicate (mem_of_mem_when hd)).kind)
      (nodup_keys_when (nodup_keys_checkArguments harguments _ _)) (nodup_keys_when ?_)
    cases arguments with
    | nil => exact List.nodup_nil
    | cons predicate rest => exact nodup_keys_reportIf _ _ _
  next callee arguments hk =>
    have hnodup := hu.nodup hid
    rw [Tree.children_of_kind? hk] at hnodup
    exact nodup_keys_when (nodup_keys_checkArguments (List.nodup_cons.1 hnodup).2 _ _)
  next operator left right hk => exact nodup_keys_when (nodup_keys_reportIf _ _ _)
  next properties hk =>
    have hnodup := hu.nodup hid
    rw [Tree.children_of_kind? hk] at hnodup
    have hreach : ∀ w ∈ properties, c.tree.Reaches c.tree.root w := fun w hw =>
      hid.part hk (.objectProperty hw)
    have hne : DiagnosticKind.voidReturnProperty ≠ .spread := by decide
    refine nodup_keys_append hne (fun d hd => ?_)
      (fun d hd => (from_checkSpreads (mem_of_mem_when hd)).kind)
      (nodup_keys_when (nodup_keys_flatMap hu hnodup hreach ?_ ?_))
      (nodup_keys_when (nodup_keys_checkSpreads hu hnodup hreach))
    · obtain ⟨w, _, hd⟩ := List.mem_flatMap.1 (mem_of_mem_when hd)
      exact (from_checkProperty hd).kind
    · intro w d hd
      obtain ⟨key, form, hkw⟩ := node_checkProperty hd
      exact Tree.child_of_kind? hkw (.propertyValue key d.node form)
    · intro w
      rw [checkProperty]
      split
      · exact nodup_keys_reportIf _ _ _
      · exact List.nodup_nil
  next elements hk =>
    have hnodup := hu.nodup hid
    rw [Tree.children_of_kind? hk] at hnodup
    exact nodup_keys_when (nodup_keys_checkSpreads hu hnodup fun w hw =>
      hid.part hk (.arrayItem hw))
  next name attributes children hk =>
    have hnodup := hu.nodup hid
    rw [Tree.children_of_kind? hk] at hnodup
    refine nodup_keys_when (nodup_keys_flatMap hu (List.nodup_append.1 hnodup).1
      (fun w hw => hid.part hk (.elementAttribute name children hw)) ?_ ?_)
    · intro w d hd
      obtain ⟨key, hkw⟩ := node_checkAttribute hd
      exact Tree.child_of_kind? hkw (.attributeValue key d.node)
    · intro w
      rw [checkAttribute]
      split
      · exact nodup_keys_reportIf _ _ _
      · exact List.nodup_nil
  next => exact List.nodup_nil

/-- Conditions apart, a statement is not the place of two equal reports. -/
theorem count_checkStatement_le_one {checks : MisuseChecks} {id : NodeId} {visits : Visits}
    (hid : c.tree.Reaches c.tree.root id) {k : DiagnosticKind × NodeId} (hk : k.1 ≠ .conditional) :
    (keys ((checkStatement checks c id).run visits).1).count k ≤ 1 := by
  have hcondition : ∀ test, (keys ((whenCheck checks.conditionals
      (checkCondition c true test)).run visits).1).count k ≤ 1 := by
    intro test
    rw [count_keys_eq_zero]
    · exact Nat.zero_le _
    · intro d hd hkind
      rw [(from_checkConditionWithin (mem_of_mem_whenCheck hd)).kind] at hkind
      exact hk hkind.symm
  rw [checkStatement]
  split
  next test _ _ _ => exact hcondition test
  next test _ _ => exact hcondition test
  next test _ => exact hcondition test
  next test _ _ _ => exact hcondition test
  next argument _ =>
    exact List.nodup_iff_count_le_one.1 (nodup_keys_when (nodup_keys_reportIf _ _ _)) k
  next declarators hkind =>
    have hnodup := hu.nodup hid
    rw [Tree.children_of_kind? hkind] at hnodup
    refine List.nodup_iff_count_le_one.1 (nodup_keys_when (nodup_keys_flatMap hu hnodup
      (fun w hw => hid.part hkind (.declarator hw)) ?_ ?_)) k
    · intro w d hd
      obtain ⟨target, hkw⟩ := node_checkDeclarator hd
      exact Tree.child_of_kind? hkw (.declaratorInit target d.node)
    · intro w
      rw [checkDeclarator]
      split
      · exact nodup_keys_reportIf _ _ _
      · exact List.nodup_nil
  next => exact Nat.zero_le _

omit hu in
/-- A method is reported for distinct types that the class inherits from. -/
theorem count_checkInherited_le {declaration member : NodeId} {kind : NodeKind}
    {heritage members : List NodeId} (hk : c.tree.kind? declaration = some kind)
    (hc : kind.classLike? = some (heritage, members)) (name : String) (n : NodeId) :
    (keys (checkInherited c declaration member)).count (.voidReturnInheritedMethod name, n) ≤
      ((heritageTypes c heritage).filter fun r => c.program.types.display r = name).length := by
  rw [checkInherited, hk, Option.bind_some, hc]
  split
  next heritage' _ member' _ _ _ heq _ =>
    cases heq
    split
    · rw [keys, List.map_map, List.count, List.countP_map, List.countP_filter,
        ← List.countP_eq_length_filter]
      refine List.countP_mono_left fun r _ hr => ?_
      have hkey : ((DiagnosticKind.voidReturnInheritedMethod (c.program.types.display r), member) :
          DiagnosticKind × NodeId) = (.voidReturnInheritedMethod name, n) :=
        eq_of_beq (Bool.and_eq_true_iff.1 hr).1
      exact decide_eq_true (DiagnosticKind.voidReturnInheritedMethod.inj (Prod.mk.inj hkey).1)
    · exact Nat.zero_le _
  next => exact Nat.zero_le _

end Misuse

namespace Rule

variable {c : Context} {k : DiagnosticKind × NodeId} {hook : Hook} {visits : Visits}

theorem count_floating_le_one :
    (keys ((Rule.floating.check c hook).run visits).1).count k ≤ 1 := by
  refine Nat.le_trans List.count_le_length ?_
  rw [keys, List.length_map]
  cases hook with
  | statement id =>
    change (Floating.checkStatement c id).length ≤ 1
    rw [Floating.checkStatement]
    split
    · exact Option.length_toList_le
    · exact Nat.zero_le _
  | _ => exact Nat.zero_le _

theorem count_misuse_le_one (hu : c.tree.Unshared c.tree.root) (hhook : hook.Within c.tree)
    (hk : k.1 ≠ .conditional) (hname : ∀ name, k.1 ≠ .voidReturnInheritedMethod name)
    {checks : MisuseChecks} :
    (keys (((Rule.misuse checks).check c hook).run visits).1).count k ≤ 1 := by
  cases hook with
  | program root => exact Nat.zero_le _
  | statement id => exact Misuse.count_checkStatement_le_one hu hhook hk
  | expression id =>
    change (keys ((Misuse.checkExpression checks c id).run visits).1).count k ≤ 1
    have hcondition : (keys ((Misuse.whenCheck checks.conditionals
        (Misuse.checkConditions c id)).run visits).1).count k = 0 := by
      apply count_keys_eq_zero
      intro d hd hkind
      rw [(Misuse.anchors_checkConditions (Misuse.mem_of_mem_whenCheck hd)).1] at hkind
      exact hk hkind.symm
    rw [Misuse.checkExpression_run, keys_append, List.count_append, hcondition, Nat.zero_add]
    exact List.nodup_iff_count_le_one.1 (Misuse.nodup_keys_checkValues hu hhook) k
  | classMember declaration member =>
    have hnone : (keys (((Rule.misuse checks).check c (.classMember declaration member)).run
        visits).1).count k = 0 := by
      apply count_keys_eq_zero
      intro d hd hkind
      obtain ⟨name, hd⟩ := (Misuse.from_checkInherited (Misuse.mem_of_mem_when hd)).kind
      exact hname name (hkind.symm.trans hd)
    rw [hnone]
    exact Nat.zero_le _

theorem count_misuse_inherited_le {declaration member : NodeId} {kind : NodeKind}
    {heritage members : List NodeId} (hk : c.tree.kind? declaration = some kind)
    (hc : kind.classLike? = some (heritage, members)) (name : String) (n : NodeId)
    {checks : MisuseChecks} :
    (keys (((Rule.misuse checks).check c (.classMember declaration member)).run visits).1).count
        (.voidReturnInheritedMethod name, n) ≤
      ((Misuse.heritageTypes c heritage).filter fun r =>
        c.program.types.display r = name).length := by
  change (keys (Misuse.when _ _)).count _ ≤ _
  rw [Misuse.when]
  split
  · exact Misuse.count_checkInherited_le hk hc name n
  · exact Nat.zero_le _

end Rule

/-! ## Calls -/

namespace Tree

variable {t : Tree}

theorem HookOf.node_eq {id : NodeId} {hook : Hook} (h : t.HookOf id hook) : hook.node = id := by
  cases h <;> rfl

theorem nodup_hooks {root id : NodeId} (hu : t.Unshared root) (hid : t.Reaches root id) :
    (t.hooks id).Nodup := by
  cases hk : t.kind? id with
  | none =>
    rw [hooks, hk]
    exact List.nodup_nil
  | some kind =>
    have hchildren := hu.nodup hid
    rw [children_of_kind? hk] at hchildren
    have hmembers : ((kind.classLike?.map (·.2)).getD []).Nodup := by
      cases kind with
      | classDeclaration name heritage members => exact (List.nodup_append.1 hchildren).2.1
      | interfaceDeclaration name heritage members => exact (List.nodup_append.1 hchildren).2.1
      | _ => exact List.nodup_nil
    rw [hooks_of_kind? hk, NodeKind.hooks]
    split
    · refine List.nodup_cons.2 ⟨by simp, hmembers.map ?_⟩
      intro a b hab
      exact (Hook.classMember.inj hab).2
    · exact List.nodup_singleton _
    · exact List.nodup_nil

/-- **If nothing is shared, no hook is called twice.** -/
theorem nodup_dispatch (h : t.Ordered) (hu : t.Unshared t.root) : t.dispatch.Nodup := by
  rw [dispatch, List.nodup_cons, List.nodup_flatMap]
  refine ⟨fun hmem => ?_, fun id hid => nodup_hooks hu ((mem_preorder_iff h).1 hid), ?_⟩
  · obtain ⟨id, _, hhook⟩ := List.mem_flatMap.1 hmem
    cases hookOf_of_mem_hooks hhook
  · refine (nodup_preorder h hu).imp ?_
    intro a b hne hook ha hb
    exact hne ((hookOf_of_mem_hooks ha).node_eq.symm.trans (hookOf_of_mem_hooks hb).node_eq)

end Tree

namespace Config

variable {config : Config} {p : Program}

theorem eq_of_info {r r' : Rule} (hr : r ∈ config.rules) (hr' : r' ∈ config.rules)
    (h : r.info = r'.info) : r = r' := by
  have hne : Floating.info ≠ Misuse.info := by decide
  rcases Rule.mem_rules_iff.1 hr with rfl | rfl
  · rcases Rule.mem_rules_iff.1 hr' with rfl | rfl
    · rfl
    · exact absurd h hne
  · rcases Rule.mem_rules_iff.1 hr' with rfl | rfl
    · exact absurd h.symm hne
    · rfl

theorem nodup_activeRules (config : Config) : config.activeRules.Nodup := by
  apply List.Nodup.filter
  rw [rules, List.nodup_cons, List.mem_singleton]
  refine ⟨fun h => ?_, List.nodup_singleton _⟩
  have hinfo : Floating.info = Misuse.info := congrArg Rule.info h
  exact absurd hinfo (by decide)

theorem nodup_calls (h : p.Valid) (hu : p.tree.Unshared p.tree.root) :
    (Rule.calls config.activeRules p.tree).Nodup := by
  rw [Rule.calls, List.nodup_flatMap]
  refine ⟨fun hook _ => config.nodup_activeRules.map ?_, (Tree.nodup_dispatch h.ordered hu).imp ?_⟩
  · intro r r' hrr
    exact (Prod.mk.inj hrr).1
  · intro hook hook' hne call hcall hcall'
    obtain ⟨r, _, rfl⟩ := List.mem_map.1 hcall
    obtain ⟨r', _, heq⟩ := List.mem_map.1 hcall'
    exact hne (Prod.mk.inj heq).2.symm

/-- The rule and the hook of a call. -/
theorem mem_calls_iff {call : Rule × Hook} :
    call ∈ Rule.calls config.activeRules p.tree ↔
      call.2 ∈ p.tree.dispatch ∧ call.1 ∈ config.activeRules := by
  rw [Rule.calls, List.mem_flatMap]
  constructor
  · rintro ⟨hook, hhook, hcall⟩
    obtain ⟨r, hr, rfl⟩ := List.mem_map.1 hcall
    exact ⟨hhook, hr⟩
  · rintro ⟨hhook, hr⟩
    exact ⟨call.2, hhook, List.mem_map.2 ⟨call.1, hr, rfl⟩⟩

/-- A hook with an anchor, conditions apart, is the hook of a node below the root. -/
theorem exists_of_anchors (h : p.Valid) {hook : Hook} (hhook : hook ∈ p.tree.dispatch)
    {kind : DiagnosticKind} {n : NodeId} (hkind : kind ≠ .conditional)
    (hanchors : hook.Anchors p.tree kind n) :
    ∃ id, p.tree.Reaches p.tree.root id ∧ hook ∈ p.tree.hooks id := by
  rcases List.mem_cons.1 hhook with rfl | hhook
  · cases hanchors
    exact absurd rfl hkind
  · obtain ⟨id, hid, hhook⟩ := List.mem_flatMap.1 hhook
    exact ⟨id, (Tree.mem_preorder_iff h.ordered).1 hid, hhook⟩

/-- **If nothing is shared, only one call makes a report**, conditions apart. -/
theorem eq_of_mem_keys (h : p.Valid) (hu : p.tree.Unshared p.tree.root) {x y : Rule × Hook}
    (hx : x ∈ Rule.calls config.activeRules p.tree) (hy : y ∈ Rule.calls config.activeRules p.tree)
    {k : DiagnosticKind × NodeId} (hk : k.1 ≠ .conditional) {visits visits' : Visits}
    (hkx : k ∈ keys ((x.1.check ⟨p, config.shape⟩ x.2).run visits).1)
    (hky : k ∈ keys ((y.1.check ⟨p, config.shape⟩ y.2).run visits').1) : x = y := by
  obtain ⟨r, hook⟩ := x
  obtain ⟨r', hook'⟩ := y
  obtain ⟨hhook, hr⟩ := mem_calls_iff.1 hx
  obtain ⟨hhook', hr'⟩ := mem_calls_iff.1 hy
  obtain ⟨d, hd, rfl⟩ := List.mem_map.1 hkx
  obtain ⟨d', hd', hkey⟩ := List.mem_map.1 hky
  have hr := List.mem_of_mem_filter hr
  have hr' := List.mem_of_mem_filter hr'
  have hkind : d'.kind = d.kind := congrArg Prod.fst hkey
  have hnode : d'.node = d.node := congrArg Prod.snd hkey
  obtain ⟨hanchors, hrule⟩ := Rule.anchors_of_mem_rules hr hd
  obtain ⟨hanchors', hrule'⟩ := Rule.anchors_of_mem_rules hr' hd'
  rw [hkind, hnode] at hanchors'
  rw [hkind] at hrule'
  obtain ⟨a, ha, hhooka⟩ := exists_of_anchors h hhook hk hanchors
  obtain ⟨b, hb, hhookb⟩ := exists_of_anchors h hhook' hk hanchors'
  have hhooks : hook = hook' := hanchors.unique hu ha hb hhooka hhookb hk hanchors'
  have hrules : r = r' := eq_of_info hr hr' (hrule.symm.trans hrule')
  rw [hhooks, hrules]

theorem keys_lint (h : p.Valid) :
    keys (config.lint p) = keys (Check.answers ((Rule.calls config.activeRules p.tree).map
      fun call => call.1.check ⟨p, config.shape⟩ call.2) []).flatten := by
  rw [lint, Rule.run_eq_answers (c := ⟨p, config.shape⟩) h.ordered h.root, keys, List.map_map]
  rfl

/-- If nothing is shared, other reports are made once as well, those about inherited methods
apart. -/
theorem count_le_one (h : p.Valid) (hu : p.tree.Unshared p.tree.root)
    {k : DiagnosticKind × NodeId} (hk : k.1 ≠ .conditional)
    (hname : ∀ name, k.1 ≠ .voidReturnInheritedMethod name) :
    (keys (config.lint p)).count k ≤ 1 := by
  rw [keys_lint h]
  refine Check.count_answers_le (nodup_calls h hu) ?_ ?_ []
  · rintro ⟨r, hook⟩ hcall visits
    obtain ⟨hhook, hr⟩ := mem_calls_iff.1 hcall
    have hwithin : hook.Within p.tree := Tree.within_of_mem_dispatch h.ordered hhook
    rcases Rule.mem_rules_iff.1 (List.mem_of_mem_filter hr) with rfl | rfl
    · exact Rule.count_floating_le_one
    · exact Rule.count_misuse_le_one (c := ⟨p, config.shape⟩) hu hwithin hk hname
  · intro x hx y hy visits visits' hkx hky
    exact eq_of_mem_keys h hu hx hy hk hkx hky

/-- If nothing is shared, a method is reported at most once for each type of that name that its class
inherits from. -/
theorem count_inherited_le (h : p.Valid) (hu : p.tree.Unshared p.tree.root) {name : String}
    {n : NodeId} (hmem : (.voidReturnInheritedMethod name, n) ∈ keys (config.lint p)) :
    ∃ declaration kind heritage members, p.tree.Reaches p.tree.root declaration ∧
      p.tree.kind? declaration = some kind ∧ kind.classLike? = some (heritage, members) ∧
      n ∈ members ∧ (keys (config.lint p)).count (.voidReturnInheritedMethod name, n) ≤
        ((Misuse.heritageTypes ⟨p, config.shape⟩ heritage).filter fun r =>
          p.types.display r = name).length := by
  have hne : DiagnosticKind.voidReturnInheritedMethod name ≠ .conditional := fun h => by cases h
  rw [keys_lint h] at hmem ⊢
  obtain ⟨d, hd, hkey⟩ := List.mem_map.1 hmem
  obtain ⟨x, hx, visits, hd⟩ := Check.exists_of_mem_answers hd
  have hkx : (.voidReturnInheritedMethod name, n) ∈
      keys ((x.1.check ⟨p, config.shape⟩ x.2).run visits).1 := List.mem_map.2 ⟨d, hd, hkey⟩
  obtain ⟨r, hook⟩ := x
  obtain ⟨hhook, hr⟩ := mem_calls_iff.1 hx
  have hr := List.mem_of_mem_filter hr
  have hanchors := (Rule.anchors_of_mem_rules hr hd).1
  have hkind : d.kind = .voidReturnInheritedMethod name := congrArg Prod.fst hkey
  have hnode : d.node = n := congrArg Prod.snd hkey
  rw [hkind, hnode] at hanchors
  obtain ⟨id, hid, hhookid⟩ := exists_of_anchors h hhook hne hanchors
  cases hanchors with
  | dropped hdropped => rcases hdropped with hdropped | hdropped <;> cases hdropped
  | inStatement hplaced _ => cases hplaced
  | inExpression hplaced _ => cases hplaced
  | inherited _ _ _ =>
    cases Tree.hookOf_of_mem_hooks hhookid with
    | @classMember kind heritage members _ hk hc hm =>
      refine ⟨id, kind, heritage, members, hid, hk, hc, hm,
        Check.count_answers_le (nodup_calls h hu) ?_ ?_ []⟩
      · intro y hy visits'
        by_cases hky : (.voidReturnInheritedMethod name, n) ∈
            keys ((y.1.check ⟨p, config.shape⟩ y.2).run visits').1
        · have hxy := eq_of_mem_keys h hu hx hy hne hkx hky
          subst hxy
          rcases Rule.mem_rules_iff.1 hr with rfl | rfl
          · exact Nat.zero_le _
          · exact Rule.count_misuse_inherited_le (c := ⟨p, config.shape⟩) hk hc name n
        · rw [List.count_eq_zero.2 hky]
          exact Nat.zero_le _
      · intro x hx y hy visits visits' hkx hky
        exact eq_of_mem_keys h hu hx hy hne hkx hky

/-- **Reports are not repeated.**  A condition is reported once.  If nothing is shared, everything else
is reported once as well, except that a method is reported for each of the distinct types of one name
that its class inherits from. -/
theorem reports_distinct (h : p.validate = .ok ()) (config : Config) :
    (∀ n, (keys (config.lint p)).count (.conditional, n) ≤ 1) ∧
    (p.tree.Unshared p.tree.root →
      (∀ kind n, (∀ name, kind ≠ .voidReturnInheritedMethod name) →
        (keys (config.lint p)).count (kind, n) ≤ 1) ∧
      ∀ name n, (.voidReturnInheritedMethod name, n) ∈ keys (config.lint p) →
        ∃ declaration kind heritage members, p.tree.Reaches p.tree.root declaration ∧
          p.tree.kind? declaration = some kind ∧ kind.classLike? = some (heritage, members) ∧
          n ∈ members ∧ ∃ parents : List TypeId, parents.Nodup ∧
            (∀ r ∈ parents, (∃ clause ∈ heritage, p.typeAt clause = r) ∧
              p.types.display r = name) ∧
            (keys (config.lint p)).count (.voidReturnInheritedMethod name, n) ≤ parents.length) := by
  have hvalid := Program.validate_eq_ok_iff.1 h
  refine ⟨count_conditional_le_one hvalid, fun hu => ⟨fun kind n hname => ?_, fun name n hmem => ?_⟩⟩
  · by_cases hkind : kind = .conditional
    · rw [hkind]
      exact count_conditional_le_one hvalid n
    · exact count_le_one hvalid hu hkind hname
  · obtain ⟨declaration, kind, heritage, members, hreach, hk, hc, hn, hcount⟩ :=
      count_inherited_le hvalid hu hmem
    refine ⟨declaration, kind, heritage, members, hreach, hk, hc, hn, _,
      (Misuse.nodup_heritageTypes ⟨p, config.shape⟩ heritage).filter _, fun r hr => ?_, hcount⟩
    obtain ⟨hparent, hdisplay⟩ := List.mem_filter.1 hr
    exact ⟨Misuse.mem_heritageTypes_iff.1 hparent, of_decide_eq_true hdisplay⟩

/-- `interface C extends P, P { m }` where the two `P` are different types with a method `m` that
returns nothing, and the method `m` of `C` returns a Result. -/
def namesakesProgram : Program :=
  ⟨⟨TypeTable.primitives.entries ++ #[
      .literal (.string "success"),
      .object { properties := [⟨"tag", ⟨9⟩⟩, ⟨"success", ⟨7⟩⟩] },
      .object { callSignatures := [⟨[], ⟨3⟩⟩] },
      .object { callSignatures := [⟨[], ⟨10⟩⟩] },
      .object { name := some "P", properties := [⟨"m", ⟨11⟩⟩] },
      .object { name := some "P", properties := [⟨"m", ⟨11⟩⟩, ⟨"k", ⟨7⟩⟩] }]⟩,
    ⟨#[
      { kind := .identifier "P", type := some ⟨13⟩ },
      { kind := .identifier "P", type := some ⟨14⟩ },
      { kind := .classMember (.name "m") .signature none false, type := some ⟨12⟩ },
      { kind := .interfaceDeclaration "C" [⟨0⟩, ⟨1⟩] [⟨2⟩] },
      { kind := .program [⟨3⟩] }], ⟨4⟩⟩⟩

theorem namesakesProgram_unshared :
    namesakesProgram.tree.Unshared namesakesProgram.tree.root := by
  have hvalid : namesakesProgram.Valid := Program.validate_eq_ok_iff.1 rfl
  have hpreorder : namesakesProgram.tree.preorder namesakesProgram.tree.root =
      [⟨4⟩, ⟨3⟩, ⟨0⟩, ⟨1⟩, ⟨2⟩] := by cbv
  refine Tree.unshared_of_nodup hvalid.ordered ?_
  rw [hpreorder]
  decide

theorem lint_namesakesProgram : keys (Config.lint {} namesakesProgram) =
    [(.voidReturnInheritedMethod "P", ⟨2⟩), (.voidReturnInheritedMethod "P", ⟨2⟩)] := by
  cbv

/-- The two reports come from two types. -/
theorem reports_distinct_namesakes :
    namesakesProgram.validate = .ok () ∧
    namesakesProgram.tree.Unshared namesakesProgram.tree.root ∧
    (∀ n, (keys (Config.lint {} namesakesProgram)).count (.conditional, n) ≤ 1) ∧
    (keys (Config.lint {} namesakesProgram)).count (.floating, ⟨3⟩) ≤ 1 ∧
    ∃ parents : List TypeId, parents.Nodup ∧
      (∀ r ∈ parents, namesakesProgram.types.display r = "P") ∧ 2 ≤ parents.length := by
  have hvalid : namesakesProgram.validate = .ok () := rfl
  obtain ⟨hconditional, hrest⟩ := reports_distinct hvalid {}
  obtain ⟨hother, hinherited⟩ := hrest namesakesProgram_unshared
  refine ⟨hvalid, namesakesProgram_unshared, hconditional,
    hother .floating ⟨3⟩ (by simp), ?_⟩
  obtain ⟨_, _, _, _, _, _, _, _, parents, hnodup, hparents, hcount⟩ :=
    hinherited "P" ⟨2⟩ (by rw [lint_namesakesProgram]; decide)
  refine ⟨parents, hnodup, fun r hr => (hparents r hr).2, ?_⟩
  rw [lint_namesakesProgram] at hcount
  exact hcount

/-- `x; x` where both statements are one node. -/
def sharedProgram : Program :=
  ⟨Classifier.recursiveTable, ⟨#[
    { kind := .identifier "x", type := some ⟨10⟩ },
    { kind := .expressionStatement ⟨0⟩ },
    { kind := .program [⟨1⟩, ⟨1⟩] }], ⟨2⟩⟩⟩

/-- A shared statement is reported at each of its places, and a method once for each of two types
with one name. -/
theorem reports_repeated :
    (Program.load sharedProgram.render = .ok sharedProgram ∧
      (Config.lint {} sharedProgram).map (fun d => (d.rule, d.kind, d.node)) =
        [(Floating.info.name, .floating, ⟨1⟩), (Floating.info.name, .floating, ⟨1⟩)]) ∧
    (Program.load namesakesProgram.render = .ok namesakesProgram ∧
      (Config.lint {} namesakesProgram).map (fun d => (d.rule, d.kind, d.node)) =
        [(Misuse.info.name, .voidReturnInheritedMethod "P", ⟨2⟩),
          (Misuse.info.name, .voidReturnInheritedMethod "P", ⟨2⟩)]) := by
  have hshared : ∀ n ∈ sharedProgram.tree.nodes, ∀ x, n.kind ≠ .literal (.number x) := by
    simp [sharedProgram]
  have hnamesakes : ∀ n ∈ namesakesProgram.tree.nodes, ∀ x, n.kind ≠ .literal (.number x) := by
    simp [namesakesProgram]
  refine ⟨⟨Program.load_render rfl (by decide +kernel) ?_, by cbv⟩,
    Program.load_render rfl (by decide +kernel) ?_, by cbv⟩
  · rintro x ⟨n, hn, hx⟩
    exact absurd hx (hshared n hn x)
  · rintro x ⟨n, hn, hx⟩
    exact absurd hx (hnamesakes n hn x)

end Config

end ResultLint
