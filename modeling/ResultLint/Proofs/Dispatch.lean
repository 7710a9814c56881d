import ResultLint.Proofs.Traversal
import ResultLint.Proofs.Unfolding

/-!
# The calls of a run

A run is recursive: the visit of a node calls the rules and goes on to the parts.  Said without
recursion, it makes a list of calls.  `Tree.dispatch` lists the hooks of a tree, first that of the
root and then those of every node of the unfolding; at each hook the rules are called in their
order.

* `visitWithin_visitor`: the visit of a node adds the checks of its unfolding to the log.
* `run_eq_answers`: **a run gives the answers of its calls, one after another.**  The rules are
  arbitrary, so one that remembers where it was called remembers this very list.
-/

namespace ResultLint

/-- Where rules are called. -/
inductive Hook where
  | program (root : NodeId)
  | statement (id : NodeId)
  | expression (id : NodeId)
  | classMember (declaration member : NodeId)
deriving DecidableEq, Repr

def Rule.check (r : Rule) (c : Context) : Hook → Check
  | .program root => r.checkProgram c root
  | .statement id => r.checkStatement c id
  | .expression id => r.checkExpression c id
  | .classMember declaration member => r.checkClassMember c declaration member

/-- The hooks of a node: a statement has one, and more for its members if it is a class or
interface, an expression has one, and the other nodes have none. -/
def NodeKind.hooks (id : NodeId) (kind : NodeKind) : List Hook :=
  match kind.category with
  | .statement => .statement id :: ((kind.classLike?.map (·.2)).getD []).map (.classMember id)
  | .expression => [.expression id]
  | .other => []

theorem NodeKind.mentions_heritage {kind : NodeKind} {heritage members : List NodeId}
    (h : kind.classLike? = some (heritage, members)) {n : NodeId} (hn : n ∈ heritage) :
    kind.Mentions n := by
  cases kind <;> cases h
  · exact .classHeritage _ _ hn
  · exact .interfaceHeritage _ _ hn

theorem NodeKind.mentions_member {kind : NodeKind} {heritage members : List NodeId}
    (h : kind.classLike? = some (heritage, members)) {n : NodeId} (hn : n ∈ members) :
    kind.Mentions n := by
  cases kind <;> cases h
  · exact .classBody _ _ hn
  · exact .interfaceBody _ _ hn

/-- The nodes of the hook are below the root. -/
def Hook.Within (t : Tree) : Hook → Prop
  | program root => t.Reaches t.root root
  | statement id => t.Reaches t.root id
  | expression id => t.Reaches t.root id
  | classMember declaration member => t.Reaches t.root declaration ∧ t.Reaches t.root member

namespace Tree

@[inherit_doc NodeKind.hooks]
def hooks (t : Tree) (id : NodeId) : List Hook := ((t.kind? id).map (·.hooks id)).getD []

/-- The hooks of a tree, parents first. -/
def dispatch (t : Tree) : List Hook := .program t.root :: (t.preorder t.root).flatMap t.hooks

theorem hooks_of_kind? {t : Tree} {id : NodeId} {kind : NodeKind} (h : t.kind? id = some kind) :
    t.hooks id = kind.hooks id := by
  rw [hooks, h]
  rfl

/-- How a hook belongs to a node. -/
inductive HookOf (t : Tree) (id : NodeId) : Hook → Prop
  | statement {kind : NodeKind} (hk : t.kind? id = some kind)
      (hcategory : kind.category = .statement) : HookOf t id (.statement id)
  | expression {kind : NodeKind} (hk : t.kind? id = some kind)
      (hcategory : kind.category = .expression) : HookOf t id (.expression id)
  | classMember {kind : NodeKind} {heritage members : List NodeId} {member : NodeId}
      (hk : t.kind? id = some kind) (hc : kind.classLike? = some (heritage, members))
      (hm : member ∈ members) : HookOf t id (.classMember id member)

theorem hookOf_of_mem_hooks {t : Tree} {id : NodeId} {hook : Hook} (h : hook ∈ t.hooks id) :
    t.HookOf id hook := by
  cases hk : t.kind? id with
  | none =>
    rw [hooks, hk] at h
    simp at h
  | some kind =>
    rw [hooks_of_kind? hk, NodeKind.hooks] at h
    cases hcategory : kind.category with
    | statement =>
      rw [hcategory] at h
      rcases List.mem_cons.1 h with rfl | h
      · exact .statement hk hcategory
      · obtain ⟨member, hm, rfl⟩ := List.mem_map.1 h
        cases hc : kind.classLike? with
        | none => simp [hc] at hm
        | some parts =>
          rw [hc] at hm
          exact .classMember hk hc hm
    | expression =>
      rw [hcategory] at h
      rw [List.mem_singleton.1 h]
      exact .expression hk hcategory
    | other =>
      rw [hcategory] at h
      simp at h

theorem within_of_mem_hooks {t : Tree} {id : NodeId} (hid : t.Reaches t.root id) {hook : Hook}
    (h : hook ∈ t.hooks id) : hook.Within t := by
  cases hookOf_of_mem_hooks h with
  | statement _ _ => exact hid
  | expression _ _ => exact hid
  | classMember hk hc hm => exact ⟨hid, hid.part hk (NodeKind.mentions_member hc hm)⟩

/-- All hooks of a tree are within it. -/
theorem within_of_mem_dispatch {t : Tree} (ht : t.Ordered) {hook : Hook} (h : hook ∈ t.dispatch) :
    hook.Within t := by
  rcases List.mem_cons.1 h with rfl | h
  · exact .refl
  · obtain ⟨id, hid, h⟩ := List.mem_flatMap.1 h
    exact within_of_mem_hooks ((mem_preorder_iff ht).1 hid) h

end Tree

/-- What the checks find, each given the nodes that were looked at before it. -/
def Check.answers : List Check → Visits → List (List Diagnostic)
  | [], _ => []
  | check :: rest, visits =>
    (check.run visits).1 :: Check.answers rest (check.run visits).2

namespace Log

theorem addAll_nil (log : Log) : log.addAll [] = log := rfl

theorem addAll_cons (log : Log) (check : Check) (rest : List Check) :
    log.addAll (check :: rest) = (log.add check).addAll rest :=
  rfl

theorem toList_diagnostics_addAll (log : Log) (checks : List Check) :
    (log.addAll checks).diagnostics.toList =
      log.diagnostics.toList ++ (Check.answers checks log.visits).flatten := by
  induction checks generalizing log with
  | nil => simp [addAll_nil, Check.answers]
  | cons check rest ih =>
    rw [addAll_cons, ih, toList_diagnostics_add, Check.answers, List.flatten_cons,
      List.append_assoc]
    rfl

/-- Adding the checks of one item after another. -/
theorem foldl_eq_addAll {α : Type} {f : Log → α → Log} {checks : α → List Check} {l : List α}
    (h : ∀ a ∈ l, ∀ log, f log a = log.addAll (checks a)) (log : Log) :
    l.foldl f log = log.addAll (l.flatMap checks) := by
  induction l generalizing log with
  | nil => rfl
  | cons a l ih =>
    rw [List.foldl_cons, h a List.mem_cons_self, List.flatMap_cons, addAll_append]
    exact ih (fun b hb => h b (List.mem_cons_of_mem a hb)) _

end Log

namespace Rule

variable (rules : List Rule) (c : Context)

/-- The checks of the rules at a hook. -/
def checksAt (hook : Hook) : List Check := rules.map (·.check c hook)

/-- The calls of a run: hook after hook, and at each hook the rules in their order. -/
def calls (t : Tree) : List (Rule × Hook) :=
  t.dispatch.flatMap fun hook => rules.map fun r => (r, hook)

variable {rules c}

theorem memberChecks_of_kind? {id : NodeId} {kind : NodeKind} (h : c.tree.kind? id = some kind) :
    memberChecks rules c id =
      (((kind.classLike?.map (·.2)).getD []).map (Hook.classMember id)).flatMap
        (checksAt rules c) := by
  rw [memberChecks, h, Option.bind_some, List.flatMap_map]
  cases kind.classLike? with
  | none => rfl
  | some parts => rfl

/-- The visitor goes on everywhere, after the checks at the hooks of the node. -/
theorem enter_visitor {id : NodeId} {kind : NodeKind} (h : c.tree.kind? id = some kind)
    (log : Log) :
    (visitor rules c).enter kind.category id log =
      (true, log.addAll ((kind.hooks id).flatMap (checksAt rules c))) := by
  rw [NodeKind.hooks]
  cases kind.category with
  | statement =>
    rw [List.flatMap_cons, Log.addAll_append, ← memberChecks_of_kind? h]
    rfl
  | expression =>
    rw [List.flatMap_singleton]
    rfl
  | other => rfl

/-- The checks below a node. -/
def checksBelow (rules : List Rule) (c : Context) (id : NodeId) : List Check :=
  (c.tree.preorder id).flatMap fun n => (c.tree.hooks n).flatMap (checksAt rules c)

/-- The checks below a node are those of the node and then those below its parts. -/
theorem checksBelow_eq (h : c.tree.Ordered) (id : NodeId) : checksBelow rules c id =
    (c.tree.hooks id).flatMap (checksAt rules c) ++
      (c.tree.children id).flatMap (checksBelow rules c) := by
  rw [checksBelow, Tree.preorder_eq h, List.flatMap_cons, List.flatMap_assoc]
  rfl

/-- **The visit of a node adds the checks of its unfolding**, if it may go as deep as the number of
the node says. -/
theorem visitWithin_visitor (h : c.tree.Ordered) {depth : Nat} {id : NodeId}
    (hdepth : id.index < depth) (log : Log) :
    c.tree.visitWithin (visitor rules c) depth id log =
      log.addAll (((c.tree.preorder id).flatMap c.tree.hooks).flatMap (checksAt rules c)) := by
  induction depth generalizing id log with
  | zero => omega
  | succ depth ih =>
    rw [Tree.preorder_eq h, List.flatMap_cons, List.flatMap_append, Log.addAll_append]
    cases hn : c.tree.get? id with
    | none =>
      have hk : c.tree.kind? id = none := by rw [Tree.kind?, hn, Option.map_none]
      rw [Tree.visitWithin, hn, Tree.hooks, Tree.children, hk]
      rfl
    | some node =>
      have hk : c.tree.kind? id = some node.kind := by rw [Tree.kind?, hn, Option.map_some]
      rw [Tree.visitWithin_of_get? hn, enter_visitor hk, if_pos rfl, Tree.hooks_of_kind? hk,
        Tree.children_of_kind? hk, List.flatMap_assoc, List.flatMap_assoc]
      refine Log.foldl_eq_addAll (fun child hchild log => ?_) _
      have hlt : child.index < id.index :=
        h.index_lt (by rw [Tree.Child, Tree.children_of_kind? hk]; exact hchild)
      rw [ih (by omega), List.flatMap_assoc]

theorem checks_calls (t : Tree) :
    (calls rules t).map (fun call => call.1.check c call.2) =
      t.dispatch.flatMap (checksAt rules c) := by
  rw [calls, List.map_flatMap]
  refine List.flatMap_congr fun hook _ => ?_
  rw [List.map_map]
  rfl

/-- A run adds the checks of its calls to the empty log. -/
theorem run_eq_addAll (h : c.tree.Ordered) (hroot : c.tree.root.index < c.tree.size) :
    run rules c =
      (Log.addAll {} (c.tree.dispatch.flatMap (checksAt rules c))).diagnostics.toList := by
  rw [run, Tree.visit, visitWithin_visitor h hroot, Tree.dispatch, List.flatMap_cons,
    Log.addAll_append]
  rfl

/-- **A run gives the answers of its calls, one after another.** -/
theorem run_eq_answers (h : c.tree.Ordered) (hroot : c.tree.root.index < c.tree.size) :
    run rules c =
      (Check.answers ((calls rules c.tree).map fun call => call.1.check c call.2) []).flatten := by
  rw [run_eq_addAll h hroot, checks_calls, Log.toList_diagnostics_addAll]
  rfl

end Rule

end ResultLint
