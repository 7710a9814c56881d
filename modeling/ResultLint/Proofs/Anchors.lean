import ResultLint.Proofs.Dispatch
import ResultLint.Proofs.Reports

/-!
# The nodes that are reported

A diagnostic is on a node close to the hook at which it was found.  A dropped Result is reported on
the statement itself, an inherited method on the member, and most else on a part of the statement or
expression, or on what a declarator, property, spread or attribute among the parts carries.  Only a
condition can be deeper down.

* `Holds.unique`: if nothing is shared, a node is held by one node only.
* `anchors_of_mem_rules`: **what a rule finds at a hook is on a node that belongs to the hook.**
* `Anchors.unique`: if nothing is shared, a kind and a node tell the hook, conditions apart.
-/

namespace ResultLint

open Relation (ReflTransGen)

/-- Nodes that only carry a part of the statement or expression above them. -/
def NodeKind.isCarrier : NodeKind → Bool
  | variableDeclarator _ _ => true
  | property _ _ _ => true
  | spread _ => true
  | elementAttribute _ _ => true
  | _ => false

namespace Tree

variable {t : Tree}

/-- `n` is a part of `id`, or of a carrier among its parts. -/
inductive Holds (t : Tree) (id n : NodeId) : Prop
  | part {kind : NodeKind} (hk : t.kind? id = some kind) (hc : kind.isCarrier = false)
      (hn : kind.Mentions n)
  | carried {w : NodeId} {kind : NodeKind} (hw : t.Child id w) (hk : t.kind? w = some kind)
      (hc : kind.isCarrier = true) (hn : kind.Mentions n)

namespace Holds

theorem reaches {id n : NodeId} (h : t.Holds id n) : t.Reaches id n := by
  cases h with
  | part hk _ hn => exact .single (child_of_kind? hk hn)
  | carried hw hk _ hn => exact .tail (.single hw) (child_of_kind? hk hn)

/-- **If nothing is shared, a node is held by one node only.** -/
theorem unique {root a b n : NodeId} (hu : t.Unshared root) (ha : t.Reaches root a)
    (hb : t.Reaches root b) (han : t.Holds a n) (hbn : t.Holds b n) : a = b := by
  -- the node right above `n` is one of `a`, `b`, or a carrier; it cannot be both
  have hmixed : ∀ {a b : NodeId} {kind : NodeKind}, t.Reaches root a → t.Reaches root b →
      t.kind? a = some kind → kind.isCarrier = false → kind.Mentions n →
      ∀ {w : NodeId} {kind' : NodeKind}, t.Child b w → t.kind? w = some kind' →
      kind'.isCarrier = true → kind'.Mentions n → False := by
    intro a b kind ha hb hk hc hn w kind' hw hk' hc' hn'
    have haw : a = w := hu.unique ha (hb.tail hw) (child_of_kind? hk hn) (child_of_kind? hk' hn')
    subst haw
    rw [hk] at hk'
    cases hk'
    rw [hc] at hc'
    cases hc'
  cases han with
  | part hk hc hn =>
    cases hbn with
    | part hk' _ hn' => exact hu.unique ha hb (child_of_kind? hk hn) (child_of_kind? hk' hn')
    | carried hw hk' hc' hn' => exact (hmixed ha hb hk hc hn hw hk' hc' hn').elim
  | @carried w _ hw hk hc hn =>
    cases hbn with
    | part hk' hc' hn' => exact (hmixed hb ha hk' hc' hn' hw hk hc hn).elim
    | @carried w' _ hw' hk' _ hn' =>
      have hww : w = w' := hu.unique (ha.tail hw) (hb.tail hw') (child_of_kind? hk hn)
        (child_of_kind? hk' hn')
      subst hww
      exact hu.unique ha hb hw hw'

end Holds

end Tree

/-- Kinds of diagnostics that are on a node held by the statement or expression. -/
def DiagnosticKind.isPlaced : DiagnosticKind → Bool
  | voidReturnArgument => true
  | voidReturnVariable => true
  | voidReturnProperty => true
  | voidReturnReturnValue => true
  | voidReturnAttribute => true
  | spread => true
  | predicate => true
  | _ => false

theorem DiagnosticKind.rule_of_isPlaced {kind : DiagnosticKind} (h : kind.isPlaced = true) :
    kind.rule = Misuse.info := by
  cases kind with
  | floating => cases h
  | floatingResultArray => cases h
  | _ => rfl

/-- The node that a hook is about. -/
def Hook.node : Hook → NodeId
  | program root => root
  | statement id => id
  | expression id => id
  | classMember declaration _ => declaration

/-- A diagnostic of that kind on that node can come from the hook. -/
inductive Hook.Anchors (t : Tree) : Hook → DiagnosticKind → NodeId → Prop
  | dropped {kind : DiagnosticKind} {n : NodeId}
      (hk : kind = .floating ∨ kind = .floatingResultArray) : Anchors t (.statement n) kind n
  | condition {hook : Hook} {n : NodeId} (hn : t.Reaches hook.node n) :
      Anchors t hook .conditional n
  | inStatement {kind : DiagnosticKind} {id n : NodeId} (hk : kind.isPlaced = true)
      (hn : t.Holds id n) : Anchors t (.statement id) kind n
  | inExpression {kind : DiagnosticKind} {id n : NodeId} (hk : kind.isPlaced = true)
      (hn : t.Holds id n) : Anchors t (.expression id) kind n
  | inherited (name : String) (declaration member : NodeId) :
      Anchors t (.classMember declaration member) (.voidReturnInheritedMethod name) member

theorem Hook.Anchors.reaches {t : Tree} {hook : Hook} {kind : DiagnosticKind} {n : NodeId}
    (h : hook.Anchors t kind n) (hhook : hook.Within t) : t.Reaches t.root n := by
  cases h with
  | dropped _ => exact hhook
  | condition hn =>
    refine ReflTransGen.trans ?_ hn
    cases hook with
    | classMember declaration member => exact hhook.1
    | _ => exact hhook
  | inStatement _ hn => exact hhook.trans hn.reaches
  | inExpression _ hn => exact hhook.trans hn.reaches
  | inherited _ _ _ => exact hhook.2

/-- **If nothing is shared, the kind and the node of a diagnostic tell the hook**, unless it is about
a condition. -/
theorem Hook.Anchors.unique {t : Tree} (hu : t.Unshared t.root) {a b n : NodeId}
    (ha : t.Reaches t.root a) (hb : t.Reaches t.root b) {hook hook' : Hook}
    (hhook : hook ∈ t.hooks a) (hhook' : hook' ∈ t.hooks b) {kind : DiagnosticKind}
    (hkind : kind ≠ .conditional) (h : hook.Anchors t kind n) (h' : hook'.Anchors t kind n) :
    hook = hook' := by
  have hof := Tree.hookOf_of_mem_hooks hhook
  have hof' := Tree.hookOf_of_mem_hooks hhook'
  cases h with
  | condition _ => exact absurd rfl hkind
  | dropped hk =>
    cases h' with
    | dropped _ => rfl
    | inStatement hk' _ => rcases hk with rfl | rfl <;> cases hk'
    | inExpression hk' _ => rcases hk with rfl | rfl <;> cases hk'
    | condition _ => exact absurd rfl hkind
    | inherited _ _ _ => rcases hk with hk | hk <;> cases hk
  | inStatement hk hn =>
    cases hof with
    | statement hka hca =>
      cases h' with
      | dropped hk' => rcases hk' with rfl | rfl <;> cases hk
      | condition _ => exact absurd rfl hkind
      | inStatement _ hn' =>
        cases hof' with
        | statement _ _ => rw [hn.unique hu ha hb hn']
      | inExpression _ hn' =>
        cases hof' with
        | expression hkb hcb =>
          rw [hn.unique hu ha hb hn', hkb] at hka
          cases hka
          rw [hca] at hcb
          cases hcb
      | inherited _ _ _ => cases hk
  | inExpression hk hn =>
    cases hof with
    | expression hka hca =>
      cases h' with
      | dropped hk' => rcases hk' with rfl | rfl <;> cases hk
      | condition _ => exact absurd rfl hkind
      | inStatement _ hn' =>
        cases hof' with
        | statement hkb hcb =>
          rw [hn.unique hu ha hb hn', hkb] at hka
          cases hka
          rw [hca] at hcb
          cases hcb
      | inExpression _ hn' =>
        cases hof' with
        | expression _ _ => rw [hn.unique hu ha hb hn']
      | inherited _ _ _ => cases hk
  | inherited name _ _ =>
    cases hof with
    | classMember hka hca hma =>
      cases h' with
      | dropped hk' => rcases hk' with hk' | hk' <;> cases hk'
      | inStatement hk' _ => cases hk'
      | inExpression hk' _ => cases hk'
      | inherited _ _ _ =>
        cases hof' with
        | classMember hkb hcb hmb =>
          have hab : a = b := hu.unique ha hb
            (Tree.child_of_kind? hka (NodeKind.mentions_member hca hma))
            (Tree.child_of_kind? hkb (NodeKind.mentions_member hcb hmb))
          rw [hab]

/-! ## Checks -/

namespace Misuse

variable {c : Context} {d : Diagnostic}

/-- A condition is reported at itself or below. -/
theorem reaches_checkConditionWithin {depth : Nat} {inTest : Bool} {node : NodeId}
    {visits : Visits} (h : d ∈ ((checkConditionWithin c depth inTest node).run visits).1) :
    c.tree.Reaches node d.node := by
  induction depth generalizing inTest node visits with
  | zero =>
    rw [checkConditionWithin, run_pure] at h
    simp at h
  | succ depth ih =>
    rw [checkConditionWithin_run] at h
    split at h
    · simp at h
    · split at h
      next operator left right hk =>
        rcases List.mem_append.1 h with h | h
        · split at h
          · exact .head (Tree.child_of_kind? hk (.logicalLeft operator left right)) (ih h)
          · simp at h
        · split at h
          · exact .head (Tree.child_of_kind? hk (.logicalRight operator left right)) (ih h)
          · simp at h
      next =>
        split at h
        · rw [List.mem_singleton.1 h]
          exact .refl
        · simp at h

theorem node_reportIf {condition : Bool} {kind : DiagnosticKind} {node : NodeId}
    (h : d ∈ reportIf c condition kind node) : d.node = node := by
  rw [reportIf] at h
  split at h
  · rw [List.mem_singleton.1 h]
    rfl
  · simp at h

theorem node_map_report {kind : DiagnosticKind} {nodes : List NodeId}
    (h : d ∈ nodes.map (c.report info kind)) : d.node ∈ nodes := by
  obtain ⟨node, hn, rfl⟩ := List.mem_map.1 h
  exact hn

theorem kind?_of_spreadArgument? {entry n : NodeId} (h : spreadArgument? c entry = some n) :
    c.tree.kind? entry = some (.spread n) := by
  rw [spreadArgument?] at h
  split at h
  next hk =>
    cases h
    exact hk
  next => cases h

theorem node_checkSpreads {entries : List NodeId} (h : d ∈ checkSpreads c entries) :
    ∃ entry ∈ entries, c.tree.kind? entry = some (.spread d.node) := by
  obtain ⟨entry, he, hs⟩ := List.mem_filterMap.1 (List.mem_of_mem_filter (node_map_report h))
  exact ⟨entry, he, kind?_of_spreadArgument? hs⟩

theorem node_checkPredicate {callee : NodeId} {arguments : List NodeId}
    (h : d ∈ checkPredicate c callee arguments) : d.node ∈ arguments := by
  cases arguments with
  | nil => simp [checkPredicate] at h
  | cons predicate rest =>
    have hnode : d.node = predicate := node_reportIf h
    rw [hnode]
    exact List.mem_cons_self

theorem node_checkArguments {kind : CallKind} {callee : NodeId} {arguments : Option (List NodeId)}
    (h : d ∈ checkArguments c kind callee arguments) : d.node ∈ arguments.getD [] := by
  obtain ⟨x, hx, hd⟩ := List.mem_map.1 (node_map_report h)
  rw [← hd]
  exact List.fst_mem_of_mem_zipIdx (List.mem_of_mem_filter hx)

theorem node_checkDeclarator {declarator : NodeId} (h : d ∈ checkDeclarator c declarator) :
    ∃ target, c.tree.kind? declarator = some (.variableDeclarator target (some d.node)) := by
  rw [checkDeclarator] at h
  split at h
  next target init hk =>
    rw [node_reportIf h]
    exact ⟨target, hk⟩
  next => simp at h

theorem node_checkProperty {object property : NodeId} (h : d ∈ checkProperty c object property) :
    ∃ key form, c.tree.kind? property = some (.property key d.node form) := by
  rw [checkProperty] at h
  split at h
  next key value form hk =>
    rw [node_reportIf h]
    exact ⟨key, form, hk⟩
  next => simp at h

theorem node_checkAttribute {attr : NodeId} (h : d ∈ checkAttribute c attr) :
    ∃ name, c.tree.kind? attr = some (.elementAttribute name (some d.node)) := by
  rw [checkAttribute] at h
  split at h
  next name value hk =>
    rw [node_reportIf h]
    exact ⟨name, hk⟩
  next => simp at h

theorem node_checkInherited {declaration member : NodeId}
    (h : d ∈ checkInherited c declaration member) : d.node = member := by
  rw [checkInherited] at h
  split at h
  · split at h
    · obtain ⟨parent, _, rfl⟩ := List.mem_map.1 h
      rfl
    · simp at h
  · simp at h

/-! ## Rules -/

theorem mem_of_mem_when {on : Bool} {found : List Diagnostic} (h : d ∈ when on found) :
    d ∈ found := by
  rw [when] at h
  split at h
  · exact h
  · simp at h

theorem mem_of_mem_whenCheck {on : Bool} {check : Check} {visits : Visits}
    (h : d ∈ ((whenCheck on check).run visits).1) : d ∈ (check.run visits).1 := by
  rw [whenCheck] at h
  split at h
  · exact h
  · rw [run_pure] at h
    exact absurd h List.not_mem_nil

/-- What is found in an expression, conditions apart, is on a node that the expression holds. -/
theorem anchors_checkValues {checks : MisuseChecks} {id : NodeId} (h : d ∈ checkValues checks c id) :
    d.kind.isPlaced = true ∧ c.tree.Holds id d.node := by
  rw [checkValues] at h
  split at h
  next callee arguments isOptional hk =>
    rcases List.mem_append.1 h with h | h
    · have h := mem_of_mem_when h
      exact ⟨by rw [(from_checkArguments h).kind]; rfl,
        .part hk rfl (.callArgument callee isOptional (node_checkArguments h))⟩
    · have h := mem_of_mem_when h
      exact ⟨by rw [(from_checkPredicate h).kind]; rfl,
        .part hk rfl (.callArgument callee isOptional (node_checkPredicate h))⟩
  next callee arguments hk =>
    have h := mem_of_mem_when h
    obtain ⟨l, rfl, hl⟩ := mem_getD_nil_iff.1 (node_checkArguments h)
    exact ⟨by rw [(from_checkArguments h).kind]; rfl,
      .part hk rfl (.constructArgument callee hl)⟩
  next operator left right hk =>
    have h := mem_of_mem_when h
    rw [(from_checkAssignment h).kind, node_reportIf h]
    exact ⟨rfl, .part hk rfl (.assignmentRight operator left right)⟩
  next properties hk =>
    rcases List.mem_append.1 h with h | h
    · obtain ⟨property, hp, h⟩ := List.mem_flatMap.1 (mem_of_mem_when h)
      obtain ⟨key, form, hkp⟩ := node_checkProperty h
      rw [(from_checkProperty h).kind]
      exact ⟨rfl, .carried (Tree.child_of_kind? hk (.objectProperty hp)) hkp rfl
        (.propertyValue key d.node form)⟩
    · have h := mem_of_mem_when h
      obtain ⟨entry, he, hke⟩ := node_checkSpreads h
      rw [(from_checkSpreads h).kind]
      exact ⟨rfl, .carried (Tree.child_of_kind? hk (.objectProperty he)) hke rfl
        (.spreadArgument d.node)⟩
  next elements hk =>
    have h := mem_of_mem_when h
    obtain ⟨entry, he, hke⟩ := node_checkSpreads h
    rw [(from_checkSpreads h).kind]
    exact ⟨rfl, .carried (Tree.child_of_kind? hk (.arrayItem he)) hke rfl
      (.spreadArgument d.node)⟩
  next name attributes children hk =>
    obtain ⟨attr, hattr, h⟩ := List.mem_flatMap.1 (mem_of_mem_when h)
    obtain ⟨key, hka⟩ := node_checkAttribute h
    rw [(from_checkAttribute h).kind]
    exact ⟨rfl, .carried (Tree.child_of_kind? hk (.elementAttribute name children hattr)) hka rfl
      (.attributeValue key d.node)⟩
  next => simp at h

theorem anchors_checkConditions {id : NodeId} {visits : Visits}
    (h : d ∈ ((checkConditions c id).run visits).1) :
    d.kind = .conditional ∧ c.tree.Reaches id d.node := by
  rw [checkConditions] at h
  split at h
  next test consequent alternate hk =>
    exact ⟨(from_checkConditionWithin h).kind,
      .head (Tree.child_of_kind? hk (.conditionalTest test consequent alternate))
        (reaches_checkConditionWithin h)⟩
  next => exact ⟨(from_checkConditionWithin h).kind, reaches_checkConditionWithin h⟩
  next argument hk =>
    exact ⟨(from_checkConditionWithin h).kind,
      .head (Tree.child_of_kind? hk (.unaryArgument .not argument))
        (reaches_checkConditionWithin h)⟩
  next =>
    rw [run_pure] at h
    exact absurd h List.not_mem_nil

theorem anchors_checkStatement {checks : MisuseChecks} {id : NodeId} {visits : Visits}
    (h : d ∈ ((checkStatement checks c id).run visits).1) :
    (Hook.statement id).Anchors c.tree d.kind d.node ∧ d.kind.rule = info := by
  have hcondition : ∀ {kind : NodeKind} {test : NodeId}, c.tree.kind? id = some kind →
      kind.Mentions test →
      d ∈ ((whenCheck checks.conditionals (checkCondition c true test)).run visits).1 →
      (Hook.statement id).Anchors c.tree d.kind d.node ∧ d.kind.rule = info := by
    intro kind test hk ht hd
    have hd := mem_of_mem_whenCheck hd
    rw [(from_checkConditionWithin hd).kind]
    exact ⟨.condition (.head (Tree.child_of_kind? hk ht) (reaches_checkConditionWithin hd)), rfl⟩
  rw [checkStatement] at h
  split at h
  next test consequent alternate hk => exact hcondition hk (.ifTest test consequent alternate) h
  next test body hk => exact hcondition hk (.whileTest test body) h
  next body test hk => exact hcondition hk (.doWhileTest body test) h
  next init test update body hk => exact hcondition hk (.forTest init test update body) h
  next argument hk =>
    rw [run_pure] at h
    have h := mem_of_mem_when h
    rw [(from_checkReturn h).kind, node_reportIf h]
    exact ⟨.inStatement rfl (.part hk rfl (.returnArgument argument)), rfl⟩
  next declarators hk =>
    rw [run_pure] at h
    obtain ⟨declarator, hdecl, h⟩ := List.mem_flatMap.1 (mem_of_mem_when h)
    obtain ⟨target, hkd⟩ := node_checkDeclarator h
    rw [(from_checkDeclarator h).kind]
    exact ⟨.inStatement rfl (.carried (Tree.child_of_kind? hk (.declarator hdecl)) hkd rfl
      (.declaratorInit target d.node)), rfl⟩
  next =>
    rw [run_pure] at h
    exact absurd h List.not_mem_nil

/-- An expression is searched for conditions first. -/
theorem checkExpression_run (checks : MisuseChecks) (c : Context) (id : NodeId) (visits : Visits) :
    (checkExpression checks c id).run visits =
      (((whenCheck checks.conditionals (checkConditions c id)).run visits).1 ++
        checkValues checks c id,
      ((whenCheck checks.conditionals (checkConditions c id)).run visits).2) :=
  rfl

end Misuse

namespace Rule

variable {c : Context} {d : Diagnostic} {hook : Hook} {visits : Visits}

theorem anchors_floating (h : d ∈ ((Rule.floating.check c hook).run visits).1) :
    hook.Anchors c.tree d.kind d.node ∧ d.kind.rule = Floating.info := by
  cases hook with
  | statement id =>
    have hkind := (Floating.from_checkStatement h).kind
    have hnode : d.node = id := by
      change d ∈ Floating.checkStatement c id at h
      rw [Floating.checkStatement] at h
      split at h
      · obtain ⟨dropped, _, rfl⟩ := Option.map_eq_some_iff.1 (Option.mem_toList.1 h)
        cases dropped <;> rfl
      · simp at h
    rw [hnode]
    refine ⟨.dropped hkind, ?_⟩
    rcases hkind with hkind | hkind
    · rw [hkind]
      rfl
    · rw [hkind]
      rfl
  | _ => cases h

theorem anchors_misuse {checks : MisuseChecks}
    (h : d ∈ (((Rule.misuse checks).check c hook).run visits).1) :
    hook.Anchors c.tree d.kind d.node ∧ d.kind.rule = Misuse.info := by
  cases hook with
  | program root => cases h
  | statement id => exact Misuse.anchors_checkStatement h
  | expression id =>
    change d ∈ ((Misuse.checkExpression checks c id).run visits).1 at h
    rw [Misuse.checkExpression_run] at h
    rcases List.mem_append.1 h with h | h
    · obtain ⟨hkind, hnode⟩ := Misuse.anchors_checkConditions (Misuse.mem_of_mem_whenCheck h)
      rw [hkind]
      exact ⟨.condition hnode, rfl⟩
    · obtain ⟨hkind, hnode⟩ := Misuse.anchors_checkValues h
      exact ⟨.inExpression hkind hnode, DiagnosticKind.rule_of_isPlaced hkind⟩
  | classMember declaration member =>
    have h : d ∈ Misuse.checkInherited c declaration member := Misuse.mem_of_mem_when h
    obtain ⟨name, hkind⟩ := (Misuse.from_checkInherited h).kind
    rw [hkind, Misuse.node_checkInherited h]
    exact ⟨.inherited name declaration member, rfl⟩

theorem mem_rules_iff {config : Config} {r : Rule} :
    r ∈ config.rules ↔ r = .floating ∨ r = .misuse config.misuse := by
  rw [Config.rules, List.mem_cons, List.mem_singleton]

/-- **What a rule finds at a hook belongs to the hook, and its kind to the rule.** -/
theorem anchors_of_mem_rules {config : Config} {r : Rule} (hr : r ∈ config.rules)
    (h : d ∈ ((r.check c hook).run visits).1) :
    hook.Anchors c.tree d.kind d.node ∧ d.kind.rule = r.info := by
  rcases mem_rules_iff.1 hr with rfl | rfl
  · exact anchors_floating h
  · exact anchors_misuse h

end Rule

end ResultLint
