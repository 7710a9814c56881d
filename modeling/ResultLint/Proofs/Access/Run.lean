import Mathlib
import ResultLint.Proofs.Access.Rules

/-!
# Runs over lookups

A run over an `Access` knows no more of a program than what it looks up.  If the lookups answer for a
valid program, the run finds what a run with the program at hand finds, whatever the monad: a lookup
outside the table, outside the tree or of a node that is not below the root never happens, and no
step leads to anything but a smaller number.

* `visit_eq`, `run_eq`: the visit and the run, for all rules that agree.
* `lint_eq`: **linting over lookups that answer gives the diagnostics of linting.**
* `lint_strict`: **lookups that fail on anything else are enough.**
-/

namespace ResultLint

namespace Access

variable {m : Type → Type} [Monad m] (a : Access m)

/-- A rule that can only look a program up. -/
structure Rule (m : Type → Type) where
  info : RuleInfo
  check : Hook → Check m

def add (log : Log) (check : Check m) : m Log := do
  let answer ← check log.visits
  return ⟨log.diagnostics ++ answer.1, answer.2⟩

def addAll (log : Log) (checks : List (Check m)) : m Log := checks.foldlM add log

/-- The checks of the rules at hooks. -/
def checksAt (rules : List (Rule m)) (hooks : List Hook) : List (Check m) :=
  hooks.flatMap fun hook => rules.map (·.check hook)

def visit (rules : List (Rule m)) (id : NodeId) (log : Log) : m Log := do
  let kind ← a.kind id
  let log ← addAll log (checksAt rules (kind.hooks id))
  kind.children.foldlM (fun log child => a.into id child fun _ => visit rules child log) log
termination_by id.index

def run (rules : List (Rule m)) : m (List Diagnostic) := do
  let log ← addAll {} (checksAt rules [.program a.root])
  return (← a.visit rules a.root log).diagnostics.toList

def rules (config : Config) : List (Rule m) :=
  [⟨Floating.info, a.floating config.shape⟩, ⟨Misuse.info, a.misuse config.shape config.misuse⟩]

def lint (config : Config) : m (List Diagnostic) := do
  let active := (a.rules config).filter fun r => !config.isDisabled r.info.name
  return (← a.run active).map config.applySeverity

/-! ## Answers -/

/-- The check finds what the other one finds. -/
def CheckAgrees (check : Check m) (plain : ResultLint.Check) : Prop :=
  ∀ visits, check visits = pure (plain.run visits)

/-- The rule finds what the other one finds, at every hook of the program. -/
structure Rule.Agrees (c : Context) (r : Rule m) (plain : ResultLint.Rule) : Prop where
  info : r.info = plain.info
  check : ∀ {hook : Hook}, hook.Within c.tree → CheckAgrees (r.check hook) (plain.check c hook)

variable [LawfulMonad m]

theorem addAll_eq {checks : List (Check m)} {plain : List ResultLint.Check}
    (h : List.Forall₂ CheckAgrees checks plain) (log : Log) :
    addAll log checks = pure (log.addAll plain) := by
  induction h generalizing log with
  | nil => rfl
  | @cons check p checks plain hcheck _ ih =>
    have hadd : add log check = pure (log.add p) := by
      rw [add, hcheck, pure_bind]
      rfl
    rw [addAll, List.foldlM_cons, hadd, pure_bind]
    exact ih (log.add p)

omit [LawfulMonad m] in
theorem checksAt_agrees {c : Context} {rules : List (Rule m)} {plain : List ResultLint.Rule}
    (h : List.Forall₂ (Rule.Agrees c) rules plain) {hooks : List Hook}
    (hhooks : ∀ hook ∈ hooks, hook.Within c.tree) :
    List.Forall₂ CheckAgrees (checksAt rules hooks)
      (hooks.flatMap (ResultLint.Rule.checksAt plain c)) := by
  induction hooks with
  | nil => exact .nil
  | cons hook hooks ih =>
    have hhook : hook.Within c.tree := hhooks hook List.mem_cons_self
    rw [checksAt, List.flatMap_cons, List.flatMap_cons]
    refine List.rel_append ?_ (ih fun x hx => hhooks x (List.mem_cons_of_mem hook hx))
    rw [ResultLint.Rule.checksAt, List.forall₂_map_left_iff, List.forall₂_map_right_iff]
    exact h.imp fun _ _ hr => hr.check hhook

namespace Serves

variable {a : Access m} {c : Context} (h : a.Serves c.program) {rules : List (Rule m)}
  {plain : List ResultLint.Rule}

include h

/-- **The visit of a node adds the checks of its unfolding.** -/
theorem visit_eq (hrules : List.Forall₂ (Rule.Agrees c) rules plain) {id : NodeId}
    (hid : c.tree.Reaches c.tree.root id) (log : Log) :
    a.visit rules id log = pure (log.addAll (((c.tree.preorder id).flatMap c.tree.hooks).flatMap
      (ResultLint.Rule.checksAt plain c))) := by
  have hordered : c.tree.Ordered := h.valid.ordered
  induction id using hordered.induction generalizing log with
  | step id ih =>
    obtain ⟨kind, hk, ha⟩ := h.kind_eq hid
    have hhooks : ∀ hook ∈ kind.hooks id, hook.Within c.tree := by
      intro hook hhook
      rw [← Tree.hooks_of_kind? hk] at hhook
      exact Tree.within_of_mem_hooks hid hhook
    have hfold : ∀ (l : List NodeId), (∀ child ∈ l, kind.Mentions child) → ∀ log : Log,
        l.foldlM (fun log child => a.into id child fun _ => a.visit rules child log) log =
          pure (log.addAll (((l.flatMap c.tree.preorder).flatMap c.tree.hooks).flatMap
            (ResultLint.Rule.checksAt plain c))) := by
      intro l
      induction l with
      | nil =>
        intro _ log
        rfl
      | cons child l ihl =>
        intro hl log
        have hchild : kind.Mentions child := hl child List.mem_cons_self
        have hvisit := ih child (Tree.child_of_kind? hk hchild) (hid.part hk hchild) log
        rw [List.foldlM_cons, h.into_eq (h.index_lt hk hchild), hvisit, pure_bind,
          ihl fun x hx => hl x (List.mem_cons_of_mem child hx)]
        rw [List.flatMap_cons, List.flatMap_append, List.flatMap_append, Log.addAll_append]
    rw [visit, ha, pure_bind, addAll_eq (checksAt_agrees hrules hhooks), pure_bind,
      hfold _ fun child hc => NodeKind.mem_children_iff.1 hc, Tree.preorder_eq hordered,
      List.flatMap_cons, List.flatMap_append, Log.addAll_append, Tree.hooks_of_kind? hk,
      Tree.children_of_kind? hk]

theorem run_eq (hrules : List.Forall₂ (Rule.Agrees c) rules plain) :
    a.run rules = pure (ResultLint.Rule.run plain c) := by
  have hroot : a.root = c.tree.root := h.root
  have hhooks : ∀ hook ∈ [Hook.program a.root], hook.Within c.tree := by
    intro hook hhook
    rw [List.mem_singleton.1 hhook, hroot]
    exact .refl
  rw [run, addAll_eq (checksAt_agrees hrules hhooks), pure_bind, hroot, h.visit_eq hrules .refl,
    pure_bind, ResultLint.Rule.run_eq_addAll h.valid.ordered h.valid.root, Tree.dispatch,
    List.flatMap_singleton, List.flatMap_cons, Log.addAll_append]

omit h in
theorem rules_agree (config : Config) {p : Program} (h : a.Serves p) :
    List.Forall₂ (Rule.Agrees ⟨p, config.shape⟩) (a.rules config) config.rules := by
  have hc : a.Serves (Context.mk p config.shape).program := h
  refine .cons ⟨rfl, fun hhook visits => ?_⟩ (.cons ⟨rfl, fun hhook visits => ?_⟩ .nil)
  · exact hc.floating_eq hhook visits
  · exact hc.misuse_eq hhook config.misuse visits

omit h in
/-- **Linting over lookups that answer gives the diagnostics of linting.** -/
theorem lint_eq {p : Program} (h : a.Serves p) (config : Config) :
    a.lint config = pure (config.lint p) := by
  have hc : a.Serves (Context.mk p config.shape).program := h
  have hactive : List.Forall₂ (Rule.Agrees ⟨p, config.shape⟩)
      ((a.rules config).filter fun r => !config.isDisabled r.info.name) config.activeRules := by
    refine List.rel_filter (fun r r' hr => ?_) (h.rules_agree config)
    dsimp only
    rw [hr.info]
  rw [lint, hc.run_eq hactive, pure_bind]
  rfl

end Serves

/-! ## Lookups that fail -/

/-- Looks nodes and types up in a program, and fails if there is none of that number.  To go from a
node to one that has no smaller number fails as well. -/
def strict (p : Program) : Access Option where
  root := p.tree.root
  typeIds := p.types.ids
  node := p.tree.get?
  type := p.types.get?
  descend whole part := if h : part.index < whole.index then some ⟨h⟩ else none

theorem strict_serves {p : Program} (h : p.Valid) : (strict p).Serves p where
  valid := h
  root := rfl
  typeIds := rfl
  node _ hn := hn
  type ht := ht
  descend hlt := dif_pos hlt

/-- **Linting a valid program needs nothing for missing numbers.** -/
theorem lint_strict {p : Program} (h : p.validate = .ok ()) (config : Config) :
    (strict p).lint config = some (config.lint p) :=
  (strict_serves (Program.validate_eq_ok_iff.1 h)).lint_eq config

/-- `x?.; !x; class C extends x { m }` where the type of `x` stands for itself.  Nothing leads to the
statement in the middle. -/
def recursiveProgram : Program :=
  ⟨Classifier.recursiveTable, ⟨#[
    { kind := .identifier "x", type := some ⟨12⟩ },
    { kind := .chain ⟨0⟩, type := some ⟨11⟩ },
    { kind := .expressionStatement ⟨1⟩ },
    { kind := .identifier "x", type := some ⟨12⟩ },
    { kind := .unary .not ⟨3⟩, type := some ⟨0⟩ },
    { kind := .expressionStatement ⟨4⟩ },
    { kind := .expressionStatement ⟨0⟩ },
    { kind := .identifier "x", type := some ⟨12⟩ },
    { kind := .classMember (.name "m") .method none false, type := some ⟨13⟩ },
    { kind := .classDeclaration "C" [⟨7⟩] [⟨8⟩] },
    { kind := .program [⟨2⟩, ⟨5⟩, ⟨9⟩] }], ⟨10⟩⟩⟩

theorem lint_strict_recursive :
    recursiveProgram.validate = .ok () ∧
    (strict recursiveProgram).lint {} = some (Config.lint {} recursiveProgram) ∧
    (Config.lint {} recursiveProgram).map (fun d => (d.kind, d.node)) =
      [(.floating, ⟨2⟩), (.conditional, ⟨3⟩)] := by
  have hvalid : recursiveProgram.validate = .ok () := rfl
  exact ⟨hvalid, lint_strict hvalid {}, by cbv⟩

end Access

end ResultLint
