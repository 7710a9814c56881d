import ResultLint.Proofs.Anchors

/-!
# Checks that stay below a node

Checks share one memory of the nodes that were looked at.  A check is **confined** to a set of nodes
if it looks at nodes of the set only, and if what it finds depends only on which of these were
looked at before.

* `confined_checkConditionWithin`, `confined_check`: **the checks at a node are confined to every
  set that holds the node and with a node its parts.**
* `answers_congr`, `visitsAfter_outside`: what this means for a list of checks.
* `answers_flatMap`: **lists of checks that are confined to disjoint sets find, one after another,
  what each of them finds alone.**
-/

namespace ResultLint

/-- The same nodes of the set were looked at. -/
def Visits.SameOn (S : NodeId → Prop) (visits visits' : Visits) : Prop :=
  ∀ key n, S n → ((key, n) ∈ visits ↔ (key, n) ∈ visits')

theorem Visits.SameOn.cons {S : NodeId → Prop} {visits visits' : Visits}
    (h : SameOn S visits visits') (x : String × NodeId) :
    SameOn S (x :: visits) (x :: visits') := by
  intro key n hn
  rw [List.mem_cons, List.mem_cons, h key n hn]

theorem Visits.SameOn.trans {S : NodeId → Prop} {visits visits' visits'' : Visits}
    (h : SameOn S visits visits') (h' : SameOn S visits' visits'') : SameOn S visits visits'' :=
  fun key n hn => (h key n hn).trans (h' key n hn)

namespace Check

open Visits (SameOn)

/-- The check looks at nodes of the set only, and depends only on which of them were looked at. -/
structure Confined (S : NodeId → Prop) (check : Check) : Prop where
  found : ∀ {visits visits' : Visits}, SameOn S visits visits' →
    (check.run visits).1 = (check.run visits').1
  inside : ∀ {visits visits' : Visits}, SameOn S visits visits' →
    SameOn S (check.run visits).2 (check.run visits').2
  outside : ∀ visits : Visits, SameOn (fun n => ¬ S n) (check.run visits).2 visits

variable {S : NodeId → Prop}

theorem confined_pure (S : NodeId → Prop) (found : List Diagnostic) :
    Confined S (pure found : Check) where
  found _ := rfl
  inside h := h
  outside _ _ _ _ := Iff.rfl

theorem Confined.whenCheck {check : Check} (h : Confined S check) (on : Bool) :
    Confined S (Misuse.whenCheck on check) := by
  rw [Misuse.whenCheck]
  split
  · exact h
  · exact confined_pure S []

/-- One check after another. -/
theorem Confined.append {first second check : Check} (h : Confined S first)
    (h' : Confined S second)
    (hrun : ∀ visits, check.run visits =
      ((first.run visits).1 ++ (second.run (first.run visits).2).1,
        (second.run (first.run visits).2).2)) : Confined S check where
  found hv := by rw [hrun, hrun, h.found hv, h'.found (h.inside hv)]
  inside hv := by
    rw [hrun, hrun]
    exact h'.inside (h.inside hv)
  outside visits := by
    rw [hrun]
    exact (h'.outside _).trans (h.outside visits)

/-- A check that remembers a node of the set. -/
theorem Confined.once {check inner : Check} (key : String) {node : NodeId} (hnode : S node)
    (h : Confined S inner)
    (hrun : ∀ visits, check.run visits =
      if (key, node) ∈ visits then ([], visits) else inner.run ((key, node) :: visits)) :
    Confined S check := by
  refine ⟨fun {visits visits'} hv => ?_, fun {visits visits'} hv => ?_, fun visits => ?_⟩
  · rw [hrun, hrun]
    by_cases hmem : (key, node) ∈ visits
    · rw [if_pos hmem, if_pos ((hv key node hnode).1 hmem)]
    · rw [if_neg hmem, if_neg fun h => hmem ((hv key node hnode).2 h)]
      exact h.found (hv.cons _)
  · rw [hrun, hrun]
    by_cases hmem : (key, node) ∈ visits
    · rw [if_pos hmem, if_pos ((hv key node hnode).1 hmem)]
      exact hv
    · rw [if_neg hmem, if_neg fun h => hmem ((hv key node hnode).2 h)]
      exact h.inside (hv.cons _)
  · rw [hrun]
    split
    · exact fun _ _ _ => Iff.rfl
    · refine (h.outside _).trans fun key' n hn => ?_
      rw [List.mem_cons, Prod.mk.injEq, or_iff_right]
      rintro ⟨_, rfl⟩
      exact hn hnode

end Check

/-! ## Rules -/

namespace Misuse

open Check (Confined confined_pure)

variable {c : Context} {S : NodeId → Prop} (hS : ∀ {a b : NodeId}, S a → c.tree.Child a b → S b)

include hS

/-- The check of a condition looks at the condition and its operands. -/
theorem confined_checkConditionWithin (depth : Nat) (inTest : Bool) {node : NodeId}
    (hnode : S node) : Confined S (checkConditionWithin c depth inTest node) := by
  induction depth generalizing node with
  | zero => exact confined_pure S []
  | succ depth ih =>
    by_cases hlogical : ∃ operator left right,
        c.tree.kind? node = some (.logical operator left right)
    · obtain ⟨operator, left, right, hk⟩ := hlogical
      have hleft := ih (hS hnode (Tree.child_of_kind? hk (.logicalLeft operator left right)))
      have hright := ih (hS hnode (Tree.child_of_kind? hk (.logicalRight operator left right)))
      have hoperands : Confined S (do
          let found ← whenCheck (decide (operator ≠ .nullish) || inTest)
            (checkConditionWithin c depth inTest left)
          let more ← whenCheck inTest (checkConditionWithin c depth inTest right)
          return found ++ more) :=
        (hleft.whenCheck _).append (hright.whenCheck _) fun _ => rfl
      refine .once conditionKey hnode hoperands fun visits => ?_
      rw [checkConditionWithin_run, hk]
      cases inTest <;> cases operator <;> rfl
    · have hreport :=
        confined_pure S (if c.isAlwaysResult node then [c.report info .conditional node] else [])
      refine .once conditionKey hnode hreport fun visits => ?_
      rw [checkConditionWithin_run, run_pure]
      cases hk : c.tree.kind? node with
      | none => rfl
      | some kind =>
        cases kind with
        | logical operator left right => exact absurd ⟨operator, left, right, hk⟩ hlogical
        | _ => rfl

theorem confined_checkConditions {id : NodeId} (hid : S id) :
    Confined S (checkConditions c id) := by
  rw [checkConditions]
  split
  next test consequent alternate hk =>
    exact confined_checkConditionWithin hS _ _
      (hS hid (Tree.child_of_kind? hk (.conditionalTest test consequent alternate)))
  next => exact confined_checkConditionWithin hS _ _ hid
  next argument hk =>
    exact confined_checkConditionWithin hS _ _
      (hS hid (Tree.child_of_kind? hk (.unaryArgument .not argument)))
  next => exact confined_pure S []

theorem confined_checkStatement (checks : MisuseChecks) {id : NodeId} (hid : S id) :
    Confined S (checkStatement checks c id) := by
  have hcondition : ∀ {kind : NodeKind} {test : NodeId}, c.tree.kind? id = some kind →
      kind.Mentions test →
      Confined S (whenCheck checks.conditionals (checkCondition c true test)) := by
    intro kind test hk ht
    exact (confined_checkConditionWithin hS _ _ (hS hid (Tree.child_of_kind? hk ht))).whenCheck _
  rw [checkStatement]
  split
  next test consequent alternate hk => exact hcondition hk (.ifTest test consequent alternate)
  next test body hk => exact hcondition hk (.whileTest test body)
  next body test hk => exact hcondition hk (.doWhileTest body test)
  next init test update body hk => exact hcondition hk (.forTest init test update body)
  next => exact confined_pure S _
  next => exact confined_pure S _
  next => exact confined_pure S []

theorem confined_checkExpression (checks : MisuseChecks) {id : NodeId} (hid : S id) :
    Confined S (checkExpression checks c id) :=
  ((confined_checkConditions hS hid).whenCheck _).append
    (confined_pure S (checkValues checks c id)) fun _ => rfl

end Misuse

namespace Rule

open Check (Confined confined_pure)

/-- **The checks at a node are confined to every set that holds the node and with a node its
parts.** -/
theorem confined_check {config : Config} {r : Rule} (hr : r ∈ config.rules) {c : Context}
    {S : NodeId → Prop} (hS : ∀ {a b : NodeId}, S a → c.tree.Child a b → S b) {id : NodeId}
    (hid : S id) {hook : Hook} (hhook : hook ∈ c.tree.hooks id) : Confined S (r.check c hook) := by
  rcases mem_rules_iff.1 hr with rfl | rfl
  · cases Tree.hookOf_of_mem_hooks hhook with
    | statement _ _ => exact confined_pure S _
    | expression _ _ => exact confined_pure S []
    | classMember _ _ _ => exact confined_pure S []
  · cases Tree.hookOf_of_mem_hooks hhook with
    | statement _ _ => exact Misuse.confined_checkStatement hS config.misuse hid
    | expression _ _ => exact Misuse.confined_checkExpression hS config.misuse hid
    | classMember _ _ _ => exact confined_pure S _

end Rule

/-! ## Lists of checks -/

namespace Check

open Visits (SameOn)

/-- The nodes that were looked at after a list of checks. -/
def visitsAfter (checks : List Check) (visits : Visits) : Visits :=
  checks.foldl (fun visits check => (check.run visits).2) visits

theorem answers_append (checks more : List Check) (visits : Visits) :
    answers (checks ++ more) visits =
      answers checks visits ++ answers more (visitsAfter checks visits) := by
  induction checks generalizing visits with
  | nil => rfl
  | cons check checks ih =>
    rw [List.cons_append, answers, ih, answers, List.cons_append]
    rfl

/-- Checks that find nothing and look at nothing. -/
theorem answers_silent {checks : List Check} (h : ∀ check ∈ checks, ∀ visits,
    check.run visits = ([], visits)) (visits : Visits) :
    (answers checks visits).flatten = [] ∧ visitsAfter checks visits = visits := by
  induction checks with
  | nil => exact ⟨rfl, rfl⟩
  | cons check checks ih =>
    have hcheck := h check List.mem_cons_self visits
    have ih := ih fun check hc => h check (List.mem_cons_of_mem _ hc)
    rw [answers, hcheck, visitsAfter, List.foldl_cons, hcheck]
    exact ⟨ih.1, ih.2⟩

variable {S : NodeId → Prop} {checks : List Check}

/-- What confined checks find depends only on the nodes of the set. -/
theorem answers_congr (h : ∀ check ∈ checks, Confined S check) {visits visits' : Visits}
    (hv : SameOn S visits visits') : answers checks visits = answers checks visits' := by
  induction checks generalizing visits visits' with
  | nil => rfl
  | cons check checks ih =>
    have hcheck := h check List.mem_cons_self
    rw [answers, answers, hcheck.found hv,
      ih (fun c hc => h c (List.mem_cons_of_mem check hc)) (hcheck.inside hv)]

/-- Confined checks look at no other nodes. -/
theorem visitsAfter_outside (h : ∀ check ∈ checks, Confined S check) (visits : Visits) :
    SameOn (fun n => ¬ S n) (visitsAfter checks visits) visits := by
  induction checks generalizing visits with
  | nil => exact fun _ _ _ => Iff.rfl
  | cons check checks ih =>
    have hrest := ih (fun c hc => h c (List.mem_cons_of_mem check hc)) (check.run visits).2
    exact hrest.trans ((h check List.mem_cons_self).outside visits)

/-- **Lists of checks that are confined to disjoint sets find, one after another, what each of them
finds alone.** -/
theorem answers_flatMap {α : Type} {S : α → NodeId → Prop} {block : α → List Check} {l : List α}
    (h : ∀ a ∈ l, ∀ check ∈ block a, Confined (S a) check)
    (hapart : l.Pairwise fun a b => ∀ n, S a n → ¬ S b n) {visits : Visits}
    (hv : ∀ a ∈ l, SameOn (S a) visits []) :
    (answers (l.flatMap block) visits).flatten =
      l.flatMap fun a => (answers (block a) []).flatten := by
  induction l generalizing visits with
  | nil => rfl
  | cons a l ih =>
    obtain ⟨ha, hl⟩ := List.pairwise_cons.1 hapart
    have hblock := h a List.mem_cons_self
    rw [List.flatMap_cons, List.flatMap_cons, answers_append, List.flatten_append,
      answers_congr hblock (hv a List.mem_cons_self)]
    refine congrArg (_ ++ ·) (ih (fun b hb => h b (List.mem_cons_of_mem a hb)) hl ?_)
    -- the nodes of another block were not looked at in this one
    intro b hb key n hn
    rw [visitsAfter_outside hblock visits key n fun han => ha b hb n han hn]
    exact hv b (List.mem_cons_of_mem a hb) key n hn

end Check

end ResultLint
