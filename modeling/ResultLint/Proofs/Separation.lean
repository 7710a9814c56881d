import Mathlib
import ResultLint.Proofs.Confinement
import ResultLint.Proofs.Locality

/-!
# Statements that share nothing

The checks of a run share one memory of the nodes that were looked at.  Below a statement only nodes
below it are looked at, so statements that share no node do not come upon what others left in the
memory, and each is reported on as if it were the whole program.

* `check_withRoot`: the rules do not ask where the root is.
* `run_withRoot`, `run_program`: a run from a node finds what the checks below it find, and **a run
  through statements that share nothing is a run from each of them.**
* `lint_statements`: **the diagnostics of a program are those of its statements, one after another,
  in whatever order the statements stand.**
-/

namespace ResultLint

/-! ## Another root -/

/-- The tree with another root. -/
def Tree.withRoot (t : Tree) (root : NodeId) : Tree := { t with root }

def Program.withRoot (p : Program) (root : NodeId) : Program :=
  { p with tree := p.tree.withRoot root }

def Context.withRoot (c : Context) (root : NodeId) : Context :=
  { c with program := c.program.withRoot root }

theorem Context.skipChain_withRoot (c : Context) (root : NodeId) :
    (c.withRoot root).tree.skipChain = c.tree.skipChain := by
  have hsteps : ∀ steps,
      (c.withRoot root).tree.skipChainWithin steps = c.tree.skipChainWithin steps := by
    intro steps
    induction steps with
    | zero => rfl
    | succ steps ih =>
      funext id
      rw [Tree.skipChainWithin, ih]
      rfl
  funext id
  exact congrFun (hsteps c.tree.size) id

theorem Tree.Ordered.withRoot {t : Tree} (h : t.Ordered) (root : NodeId) :
    (t.withRoot root).Ordered :=
  ⟨h.index_lt⟩

theorem Context.preorder_withRoot {c : Context} (h : c.tree.Ordered) (root : NodeId) :
    (c.withRoot root).tree.preorder = c.tree.preorder := by
  funext id
  exact Tree.preorder_congr h (h.withRoot root) (fun _ => rfl) id

theorem Floating.dropped?_withRoot (c : Context) (root : NodeId) :
    dropped? (c.withRoot root) = dropped? c := by
  have hdepth : ∀ depth, droppedWithin (c.withRoot root) depth = droppedWithin c depth := by
    intro depth
    induction depth with
    | zero => rfl
    | succ depth ih =>
      funext node
      rw [droppedWithin, ih, c.skipChain_withRoot]
      rfl
  funext node
  exact congrFun (hdepth c.tree.size) node

theorem Misuse.checkCondition_withRoot (c : Context) (root : NodeId) :
    checkCondition (c.withRoot root) = checkCondition c := by
  have hdepth : ∀ depth,
      checkConditionWithin (c.withRoot root) depth = checkConditionWithin c depth := by
    intro depth
    induction depth with
    | zero => rfl
    | succ depth ih =>
      funext inTest node
      rw [checkConditionWithin, ih]
      rfl
  funext inTest node
  exact congrFun (congrFun (hdepth (c.tree.size + 1)) inTest) node

theorem Misuse.isPredicateMethod_withRoot (c : Context) (root : NodeId) :
    isPredicateMethod (c.withRoot root) = isPredicateMethod c := by
  funext callee
  rw [isPredicateMethod, c.skipChain_withRoot]
  rfl

theorem Misuse.checkValues_withRoot (checks : MisuseChecks) (c : Context) (root : NodeId) :
    checkValues checks (c.withRoot root) = checkValues checks c := by
  have hpredicate : checkPredicate (c.withRoot root) = checkPredicate c := by
    funext callee arguments
    cases arguments with
    | nil => rfl
    | cons predicate arguments =>
      rw [checkPredicate, isPredicateMethod_withRoot]
      rfl
  funext expression
  rw [checkValues, hpredicate]
  rfl

/-- The rules do not ask where the root is. -/
theorem Rule.check_withRoot {config : Config} {r : Rule} (hr : r ∈ config.rules) (c : Context)
    (root : NodeId) (hook : Hook) : r.check (c.withRoot root) hook = r.check c hook := by
  rcases mem_rules_iff.1 hr with rfl | rfl
  · cases hook with
    | statement id =>
      change pure (Floating.checkStatement (c.withRoot root) id) = _
      rw [Floating.checkStatement, Floating.dropped?_withRoot]
      rfl
    | _ => rfl
  · cases hook with
    | statement id =>
      change Misuse.checkStatement config.misuse (c.withRoot root) id = _
      rw [Misuse.checkStatement, Misuse.checkCondition_withRoot]
      rfl
    | expression id =>
      change Misuse.checkExpression config.misuse (c.withRoot root) id = _
      rw [Misuse.checkExpression, Misuse.checkConditions, Misuse.checkCondition_withRoot,
        Misuse.checkValues_withRoot]
      rfl
    | _ => rfl

/-! ## Nodes with nothing in common -/

namespace Tree

variable {t : Tree}

/-- No node is below both. -/
def Apart (t : Tree) (a b : NodeId) : Prop := ∀ n, t.Reaches a n → ¬ t.Reaches b n

theorem Apart.symm {a b : NodeId} (h : t.Apart a b) : t.Apart b a :=
  fun n hb ha => h n ha hb

theorem apart_iff (h : t.Ordered) {a b : NodeId} :
    t.Apart a b ↔ (t.preorder a).Disjoint (t.preorder b) := by
  simp only [Apart, List.Disjoint, mem_preorder_iff h]

end Tree

/-! ## Runs from a node -/

namespace Rule

variable {config : Config} {rules : List Rule} {c : Context}

theorem checksBelow_withRoot (hrules : ∀ r ∈ rules, r ∈ config.rules) (h : c.tree.Ordered)
    (root : NodeId) : checksBelow rules (c.withRoot root) = checksBelow rules c := by
  have hchecks : checksAt rules (c.withRoot root) = checksAt rules c := by
    funext hook
    exact List.map_congr_left fun r hr => check_withRoot (hrules r hr) c root hook
  funext id
  rw [checksBelow, hchecks, Context.preorder_withRoot h]
  rfl

/-- The checks below a node are confined to what the node reaches. -/
theorem confined_of_mem_checksBelow (hrules : ∀ r ∈ rules, r ∈ config.rules)
    (h : c.tree.Ordered) {id : NodeId} {check : Check} (hcheck : check ∈ checksBelow rules c id) :
    check.Confined (c.tree.Reaches id) := by
  obtain ⟨n, hn, hcheck⟩ := List.mem_flatMap.1 hcheck
  obtain ⟨hook, hhook, hcheck⟩ := List.mem_flatMap.1 hcheck
  obtain ⟨r, hr, rfl⟩ := List.mem_map.1 hcheck
  exact confined_check (hrules r hr) (fun ha hab => ha.tail hab)
    ((Tree.mem_preorder_iff h).1 hn) hhook

/-- A run finds what the checks below the root find: the rules leave the program as such alone. -/
theorem run_eq_below (hrules : ∀ r ∈ rules, r ∈ config.rules) (h : c.tree.Ordered)
    (hroot : c.tree.root.index < c.tree.size) :
    run rules c = (Check.answers (checksBelow rules c c.tree.root) []).flatten := by
  have hprogram : ∀ check ∈ checksAt rules c (.program c.tree.root), ∀ visits,
      check.run visits = ([], visits) := by
    intro check hcheck visits
    obtain ⟨r, hr, rfl⟩ := List.mem_map.1 hcheck
    rcases mem_rules_iff.1 (hrules r hr) with rfl | rfl
    · rfl
    · rfl
  obtain ⟨hfound, hvisits⟩ := Check.answers_silent hprogram []
  rw [run_eq_answers h hroot, checks_calls, Tree.dispatch, List.flatMap_cons, List.flatMap_assoc,
    Check.answers_append, List.flatten_append, hfound, hvisits]
  rfl

/-- A run from a node finds what the checks below the node find. -/
theorem run_withRoot (hrules : ∀ r ∈ rules, r ∈ config.rules) (h : c.tree.Ordered) {root : NodeId}
    (hroot : root.index < c.tree.size) :
    run rules (c.withRoot root) = (Check.answers (checksBelow rules c root) []).flatten := by
  rw [run_eq_below (c := c.withRoot root) hrules (h.withRoot root) hroot,
    checksBelow_withRoot hrules h]
  rfl

/-- **A run through statements that share nothing is a run from each of them.** -/
theorem run_program (hrules : ∀ r ∈ rules, r ∈ config.rules) (h : c.tree.Ordered)
    (hroot : c.tree.root.index < c.tree.size) {body : List NodeId}
    (hbody : c.tree.kind? c.tree.root = some (.program body))
    (hapart : body.Pairwise c.tree.Apart) :
    run rules c = body.flatMap fun s => run rules (c.withRoot s) := by
  have hbelow : checksBelow rules c c.tree.root = body.flatMap (checksBelow rules c) := by
    rw [checksBelow_eq h, Tree.hooks_of_kind? hbody, Tree.children_of_kind? hbody]
    rfl
  rw [run_eq_below hrules h hroot, hbelow, Check.answers_flatMap
    (fun s _ check => confined_of_mem_checksBelow hrules h) hapart fun _ _ _ _ _ => Iff.rfl]
  refine List.flatMap_congr fun s hs => (run_withRoot hrules h ?_).symm
  exact Nat.lt_trans (h.index_lt (Tree.child_of_kind? hbody (.programBody hs))) hroot

end Rule

/-! ## Statements -/

namespace Program

variable {p : Program} {body : List NodeId}

/-- The program with these statements. -/
def withBody (p : Program) (body : List NodeId) : Program :=
  { p with tree := p.tree.modify p.tree.root fun node => { node with kind := .program body } }

theorem get?_withBody (p : Program) (body : List NodeId) (id : NodeId) :
    (p.withBody body).tree.get? id =
      if p.tree.root = id then (p.tree.get? id).map fun node => { node with kind := .program body }
      else p.tree.get? id :=
  p.tree.get?_modify p.tree.root _ id

theorem size_withBody (p : Program) (body : List NodeId) :
    (p.withBody body).tree.size = p.tree.size :=
  p.tree.size_modify p.tree.root _

namespace Valid

variable (h : p.Valid)

include h

theorem withRoot {root : NodeId} (hroot : root.index < p.tree.size) : (p.withRoot root).Valid where
  types := h.types
  root := hroot
  child := h.child
  type := h.type
  contextualType := h.contextualType

theorem kind?_withBody (body : List NodeId) :
    (p.withBody body).tree.kind? p.tree.root = some (.program body) := by
  obtain ⟨node, hn⟩ := h.exists_get?_root
  rw [Tree.kind?, get?_withBody, if_pos rfl, hn]
  rfl

theorem withBody (hbody : ∀ s ∈ body, s.index < p.tree.root.index) : (p.withBody body).Valid := by
  -- a node is an old one, or the root with its new statements
  have hget : ∀ {id : NodeId} {node : Node}, (p.withBody body).tree.get? id = some node →
      ∃ old, p.tree.get? id = some old ∧ node.type = old.type ∧
        node.contextualType = old.contextualType ∧
        (node.kind = old.kind ∨ id = p.tree.root ∧ node.kind = .program body) := by
    intro id node hn
    rw [get?_withBody] at hn
    split at hn
    next hid =>
      obtain ⟨old, hold, rfl⟩ := Option.map_eq_some_iff.1 hn
      exact ⟨old, hold, rfl, rfl, Or.inr ⟨hid.symm, rfl⟩⟩
    next => exact ⟨node, hn, rfl, rfl, Or.inl rfl⟩
  refine ⟨h.types, ?_, fun hn hm => ?_, fun hn hr => ?_, fun hn hr => ?_⟩
  · rw [size_withBody]
    exact h.root
  · obtain ⟨old, hold, -, -, hkind | ⟨rfl, hkind⟩⟩ := hget hn
    · exact h.child hold (hkind ▸ hm)
    · rw [hkind, ← NodeKind.mem_children_iff] at hm
      exact hbody _ hm
  · obtain ⟨old, hold, htype, -⟩ := hget hn
    exact h.type hold (htype ▸ hr)
  · obtain ⟨old, hold, -, htype, -⟩ := hget hn
    exact h.contextualType hold (htype ▸ hr)

/-- Below a statement nothing changes if the statements do. -/
theorem agreesBelow_withBody (body : List NodeId) {s : NodeId} (hs : p.tree.Child p.tree.root s) :
    (p.withRoot s).tree.AgreesBelow ((p.withBody body).withRoot s).tree where
  root := rfl
  get? := by
    intro id hid
    change (p.withBody body).tree.get? id = p.tree.get? id
    rw [get?_withBody, if_neg]
    rintro rfl
    exact h.ordered.not_reaches_of_child hs hid

end Valid

end Program

namespace Config

variable {p : Program} {body : List NodeId}

/-- Statements that share nothing are reported on one after another. -/
theorem lint_eq_flatMap (h : p.Valid) (hbody : p.tree.kind? p.tree.root = some (.program body))
    (hapart : body.Pairwise p.tree.Apart) (config : Config) :
    config.lint p = body.flatMap fun s => config.lint (p.withRoot s) := by
  have hrules : ∀ r ∈ config.activeRules, r ∈ config.rules := fun r hr => List.mem_of_mem_filter hr
  rw [lint, Rule.run_program (c := ⟨p, config.shape⟩) hrules h.ordered h.root hbody hapart,
    List.map_flatMap]
  rfl

/-- **The diagnostics of a program are those of its statements, one after another.**  If no node is
below two statements (one that stands twice counts as two), each statement has the diagnostics that
it has as the root of the same tree, in whatever order the statements stand. -/
theorem lint_statements (hp : p.validate = .ok ())
    (hbody : p.tree.kind? p.tree.root = some (.program body))
    (hapart : body.Pairwise p.tree.Apart) (config : Config) :
    (∀ s ∈ body, (p.withRoot s).validate = .ok ()) ∧
    config.lint p = body.flatMap (fun s => config.lint (p.withRoot s)) ∧
    ∀ body' : List NodeId, body'.Perm body →
      (p.withBody body').validate = .ok () ∧
      config.lint (p.withBody body') = body'.flatMap fun s => config.lint (p.withRoot s) := by
  have h : p.Valid := Program.validate_eq_ok_iff.1 hp
  have hchild : ∀ s ∈ body, p.tree.Child p.tree.root s :=
    fun s hs => Tree.child_of_kind? hbody (.programBody hs)
  have hroot : ∀ s ∈ body, (p.withRoot s).Valid :=
    fun s hs => h.withRoot (Nat.lt_trans (h.ordered.index_lt (hchild s hs)) h.root)
  refine ⟨fun s hs => Program.validate_eq_ok_iff.2 (hroot s hs),
    lint_eq_flatMap h hbody hapart config, fun body' hperm => ?_⟩
  have hmem : ∀ s ∈ body', s ∈ body := fun s hs => hperm.mem_iff.1 hs
  have h' : (p.withBody body').Valid :=
    h.withBody fun s hs => h.ordered.index_lt (hchild s (hmem s hs))
  have hroot' : ∀ s ∈ body', ((p.withBody body').withRoot s).Valid := by
    intro s hs
    refine h'.withRoot ?_
    rw [p.size_withBody]
    exact (hroot s (hmem s hs)).root
  -- below a statement the programs are the same, so what was shown of the one holds of the other
  have hagrees : ∀ s ∈ body',
      (p.withRoot s).tree.AgreesBelow ((p.withBody body').withRoot s).tree :=
    fun s hs => h.agreesBelow_withBody body' (hchild s (hmem s hs))
  have hapart' : body'.Pairwise (p.withBody body').tree.Apart := by
    refine (hperm.symm.pairwise hapart fun hab => hab.symm).imp_of_mem ?_
    intro a b ha hb hab n han hbn
    exact hab n ((hagrees a ha).reaches han) ((hagrees b hb).reaches hbn)
  refine ⟨Program.validate_eq_ok_iff.2 h', ?_⟩
  rw [lint_eq_flatMap h' (h.kind?_withBody body') hapart' config]
  refine List.flatMap_congr fun s hs => ?_
  exact lint_congr (hroot s (hmem s hs)) (hroot' s hs) rfl (hagrees s hs)

/-- `if (r) {}`, `r && s;` and `r;`, each with nodes of its own, where `r` is a Result. -/
def separateProgram : Program :=
  ⟨⟨TypeTable.primitives.entries ++ #[
      .literal (.string "success"),
      .object { properties := [⟨"tag", ⟨9⟩⟩, ⟨"success", ⟨7⟩⟩] }]⟩,
    ⟨#[
      { kind := .identifier "r", type := some ⟨10⟩ },
      { kind := .block [] },
      { kind := .ifElse ⟨0⟩ ⟨1⟩ none },
      { kind := .identifier "r", type := some ⟨10⟩ },
      { kind := .identifier "s", type := some ⟨7⟩ },
      { kind := .logical .and ⟨3⟩ ⟨4⟩, type := some ⟨7⟩ },
      { kind := .expressionStatement ⟨5⟩ },
      { kind := .identifier "r", type := some ⟨10⟩ },
      { kind := .expressionStatement ⟨7⟩ },
      { kind := .program [⟨2⟩, ⟨6⟩, ⟨8⟩] }], ⟨9⟩⟩⟩

theorem separateProgram_apart :
    [(⟨2⟩ : NodeId), ⟨6⟩, ⟨8⟩].Pairwise separateProgram.tree.Apart := by
  have hvalid : separateProgram.Valid := Program.validate_eq_ok_iff.1 rfl
  have hif : separateProgram.tree.preorder ⟨2⟩ = [⟨2⟩, ⟨0⟩, ⟨1⟩] := by cbv
  have hand : separateProgram.tree.preorder ⟨6⟩ = [⟨6⟩, ⟨5⟩, ⟨3⟩, ⟨4⟩] := by cbv
  have hdrop : separateProgram.tree.preorder ⟨8⟩ = [⟨8⟩, ⟨7⟩] := by cbv
  simp [Tree.apart_iff hvalid.ordered, hif, hand, hdrop]

/-- With the last statement in front, its diagnostic comes first. -/
theorem lint_statements_rotated :
    separateProgram.validate = .ok () ∧
    (separateProgram.withBody [⟨8⟩, ⟨2⟩, ⟨6⟩]).validate = .ok () ∧
    (Config.lint {} separateProgram).map (fun d => (d.kind, d.node)) =
      [(.conditional, ⟨0⟩), (.conditional, ⟨3⟩), (.floating, ⟨8⟩)] ∧
    (Config.lint {} (separateProgram.withBody [⟨8⟩, ⟨2⟩, ⟨6⟩])).map (fun d => (d.kind, d.node)) =
      [(.floating, ⟨8⟩), (.conditional, ⟨0⟩), (.conditional, ⟨3⟩)] ∧
    ∀ config : Config, config.lint (separateProgram.withBody [⟨8⟩, ⟨2⟩, ⟨6⟩]) =
      config.lint (separateProgram.withRoot ⟨8⟩) ++ (config.lint (separateProgram.withRoot ⟨2⟩) ++
        config.lint (separateProgram.withRoot ⟨6⟩)) := by
  have hvalid : separateProgram.validate = .ok () := rfl
  have hperm : [(⟨8⟩ : NodeId), ⟨2⟩, ⟨6⟩].Perm [⟨2⟩, ⟨6⟩, ⟨8⟩] := by decide
  have hlint := lint_statements hvalid rfl separateProgram_apart
  refine ⟨hvalid, ((hlint {}).2.2 _ hperm).1, by cbv, by cbv, fun config => ?_⟩
  rw [((hlint config).2.2 _ hperm).2]
  simp

end Config

end ResultLint
