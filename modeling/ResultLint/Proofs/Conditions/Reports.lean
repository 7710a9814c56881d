import ResultLint.Proofs.Anchors

/-!
# Conditions are reported when they are looked at

A condition is reported at most once because the checks remember where they were.  More than that,
what is reported can be read off what is remembered: a node that is always a Result, and is no
logical expression, is reported by the check that looks at it for the first time, and nothing else is
reported as a condition.

* `check_of_conditions`: the checks of the rules are made of checks of conditions and other reports.
* `records_check`: **a check reports the conditions that it is the first to look at.**
* `count_conditional_eq`: the conditions that a run reports are those looked at in the end.
-/

namespace ResultLint

/-- What a diagnostic says about which node. -/
def Diagnostic.key (d : Diagnostic) : DiagnosticKind × NodeId := (d.kind, d.node)

namespace Diagnostic

def keys (ds : List Diagnostic) : List (DiagnosticKind × NodeId) := ds.map key

theorem keys_append (ds es : List Diagnostic) : keys (ds ++ es) = keys ds ++ keys es :=
  List.map_append

theorem count_keys_eq_zero {ds : List Diagnostic} {k : DiagnosticKind × NodeId}
    (h : ∀ d ∈ ds, d.kind ≠ k.1) : (keys ds).count k = 0 := by
  rw [List.count_eq_zero]
  intro hk
  obtain ⟨d, hd, rfl⟩ := List.mem_map.1 hk
  exact h d hd rfl

end Diagnostic

open Diagnostic (keys keys_append count_keys_eq_zero)

/-! ## Conditions -/

/-- How often a condition has been looked at: once or not at all. -/
def looked (visits : Visits) (n : NodeId) : Nat :=
  (visits.contains (Misuse.conditionKey, n)).toNat

theorem looked_of_mem {visits : Visits} {n : NodeId} (h : (Misuse.conditionKey, n) ∈ visits) :
    looked visits n = 1 := by
  rw [looked, List.contains_iff_mem.2 h]
  rfl

theorem looked_of_not_mem {visits : Visits} {n : NodeId} (h : (Misuse.conditionKey, n) ∉ visits) :
    looked visits n = 0 := by
  have hcontains : visits.contains (Misuse.conditionKey, n) = false := by simpa using h
  rw [looked, hcontains]
  rfl

theorem looked_le_one (visits : Visits) (n : NodeId) : looked visits n ≤ 1 :=
  Bool.toNat_le _

theorem looked_cons_self (visits : Visits) (n : NodeId) :
    looked ((Misuse.conditionKey, n) :: visits) n = 1 :=
  looked_of_mem List.mem_cons_self

theorem looked_cons_of_ne {n node : NodeId} (hne : n ≠ node) (visits : Visits) :
    looked ((Misuse.conditionKey, node) :: visits) n = looked visits n := by
  by_cases h : (Misuse.conditionKey, n) ∈ visits
  · rw [looked_of_mem h, looked_of_mem (List.mem_cons_of_mem _ h)]
  · have hcons : (Misuse.conditionKey, n) ∉ (Misuse.conditionKey, node) :: visits := by
      simpa [hne] using h
    rw [looked_of_not_mem h, looked_of_not_mem hcons]

/-! ## Reports -/

def NodeKind.isLogical : NodeKind → Bool
  | logical _ _ _ => true
  | _ => false

/-- The node is reported if it is looked at as a condition. -/
def Context.isReportable (c : Context) (n : NodeId) : Bool :=
  !(c.tree.kind? n).any (·.isLogical) && c.isAlwaysResult n

/-- How often the node has been reported as a condition: once or not at all. -/
def Context.reported (c : Context) (visits : Visits) (n : NodeId) : Nat :=
  if c.isReportable n then looked visits n else 0

theorem Context.isReportable_iff {c : Context} {n : NodeId} :
    c.isReportable n = true ↔
      (∀ operator left right, c.tree.kind? n ≠ some (.logical operator left right)) ∧
        c.isAlwaysResult n = true := by
  rw [isReportable, Bool.and_eq_true_iff]
  refine and_congr_left fun _ => ?_
  cases c.tree.kind? n with
  | none => simp
  | some kind => cases kind <;> simp [NodeKind.isLogical]

theorem Context.reported_pos_iff {c : Context} {visits : Visits} {n : NodeId} :
    0 < c.reported visits n ↔ c.isReportable n = true ∧ (Misuse.conditionKey, n) ∈ visits := by
  rw [reported]
  by_cases hn : (Misuse.conditionKey, n) ∈ visits
  · cases c.isReportable n <;> simp [looked_of_mem hn, hn]
  · simp [looked_of_not_mem hn, hn]

/-- **A condition is reported exactly when it is looked at for the first time.** -/
def Check.Records (c : Context) (check : Check) : Prop :=
  ∀ (n : NodeId) (visits : Visits), (keys (check.run visits).1).count (.conditional, n) +
    c.reported visits n = c.reported (check.run visits).2 n

theorem Check.records_pure {c : Context} {ds : List Diagnostic}
    (h : ∀ d ∈ ds, d.kind ≠ .conditional) : Check.Records c (pure ds) := by
  intro n visits
  rw [run_pure, count_keys_eq_zero h, Nat.zero_add]

/-- What has been reported when some checks are added. -/
theorem Log.count_addAll {c : Context} {checks : List Check} (h : ∀ check ∈ checks, check.Records c)
    (n : NodeId) (log : Log) :
    (keys (log.addAll checks).diagnostics.toList).count (.conditional, n) +
        c.reported log.visits n =
      (keys log.diagnostics.toList).count (.conditional, n) +
        c.reported (log.addAll checks).visits n := by
  induction checks generalizing log with
  | nil => rfl
  | cons check rest ih =>
    have hfirst : (keys (check.run log.visits).1).count (.conditional, n) +
        c.reported log.visits n = c.reported (log.add check).visits n :=
      h check List.mem_cons_self n log.visits
    have hrest := ih (fun x hx => h x (List.mem_cons_of_mem check hx)) (log.add check)
    rw [toList_diagnostics_add, keys_append, List.count_append] at hrest
    rw [addAll_cons]
    omega

namespace Misuse

variable {c : Context}

theorem records_checkConditionWithin (depth : Nat) (inTest : Bool) (node : NodeId) :
    (checkConditionWithin c depth inTest node).Records c := by
  induction depth generalizing inTest node with
  | zero => exact Check.records_pure (by simp)
  | succ depth ih =>
    intro n visits
    rw [checkConditionWithin_run]
    by_cases hv : (conditionKey, node) ∈ visits
    · rw [if_pos hv]
      simp [keys]
    · rw [if_neg hv]
      have hbefore : looked visits node = 0 := looked_of_not_mem hv
      split
      next operator left right hk =>
        -- the node itself is not reported, and its operands are checked one after the other
        have hnode : c.reported ((conditionKey, node) :: visits) n = c.reported visits n := by
          by_cases hn : n = node
          · subst hn
            simp [Context.reported, Context.isReportable, hk, NodeKind.isLogical]
          · rw [Context.reported, looked_cons_of_ne hn, Context.reported]
        have hstep : ∀ (on : Bool) (part : NodeId) (before : Visits),
            (keys (if on then (checkConditionWithin c depth inTest part).run before
              else ([], before)).1).count (.conditional, n) + c.reported before n =
            c.reported (if on then (checkConditionWithin c depth inTest part).run before
              else ([], before)).2 n := by
          intro on part before
          cases on with
          | false => simp [keys]
          | true => exact ih inTest part n before
        have hfirst := hstep (operator ≠ .nullish || inTest) left ((conditionKey, node) :: visits)
        have hsecond := hstep inTest right (if operator ≠ .nullish || inTest then
          (checkConditionWithin c depth inTest left).run ((conditionKey, node) :: visits)
          else ([], (conditionKey, node) :: visits)).2
        dsimp only
        rw [keys_append, List.count_append]
        omega
      next hk =>
        have hlogical : (c.tree.kind? node).any (·.isLogical) = false := by
          cases hkind : c.tree.kind? node with
          | none => rfl
          | some kind =>
            cases kind with
            | logical operator left right => exact absurd hkind (hk _ _ _)
            | _ => rfl
        by_cases hn : n = node
        · subst hn
          have hreport : c.isReportable n = c.isAlwaysResult n := by
            rw [Context.isReportable, hlogical]
            rfl
          rw [Context.reported, Context.reported, hreport, hbefore, looked_cons_self]
          split
          · simp [keys, Diagnostic.key, Context.report]
          · simp [keys]
        · have hnone : (keys (if c.isAlwaysResult node then [c.report info .conditional node]
              else [])).count (.conditional, n) = 0 := by
            rw [List.count_eq_zero]
            split
            · simpa [keys, Diagnostic.key, Context.report] using hn
            · simp [keys]
          rw [hnone, Nat.zero_add, Context.reported, Context.reported, looked_cons_of_ne hn]

end Misuse

namespace Rule

variable {c : Context}

/-- **The checks of the rules are made of checks of conditions and of other reports.**  What holds of
these, and is not changed by more reports, holds of every check. -/
theorem check_of_conditions {P : Check → Prop}
    (hpure : ∀ ds : List Diagnostic, (∀ d ∈ ds, d.kind ≠ .conditional) → P (pure ds))
    (hcondition : ∀ inTest node, P (Misuse.checkCondition c inTest node))
    (hmore : ∀ {check check' : Check} {ds : List Diagnostic}, P check →
      (∀ d ∈ ds, d.kind ≠ .conditional) →
      (∀ visits, check'.run visits = ((check.run visits).1 ++ ds, (check.run visits).2)) → P check')
    {config : Config} {r : Rule} (hr : r ∈ config.rules) (hook : Hook) : P (r.check c hook) := by
  have hwhen : ∀ (on : Bool) {check : Check}, P check → P (Misuse.whenCheck on check) := by
    intro on check hcheck
    cases on with
    | false => exact hpure [] (by simp)
    | true => exact hcheck
  rcases mem_rules_iff.1 hr with rfl | rfl
  · cases hook with
    | statement id =>
      refine hpure _ fun d hd => ?_
      rcases (Floating.from_checkStatement hd).kind with hkind | hkind
      · rw [hkind]
        decide
      · rw [hkind]
        decide
    | _ => exact hpure [] (by simp)
  · cases hook with
    | program root => exact hpure [] (by simp)
    | statement id =>
      change P (Misuse.checkStatement _ c id)
      rw [Misuse.checkStatement]
      split
      · exact hwhen _ (hcondition _ _)
      · exact hwhen _ (hcondition _ _)
      · exact hwhen _ (hcondition _ _)
      · exact hwhen _ (hcondition _ _)
      · refine hpure _ fun d hd => ?_
        rw [(Misuse.from_checkReturn (Misuse.mem_of_mem_when hd)).kind]
        decide
      · refine hpure _ fun d hd => ?_
        obtain ⟨declarator, _, hd⟩ := List.mem_flatMap.1 (Misuse.mem_of_mem_when hd)
        rw [(Misuse.from_checkDeclarator hd).kind]
        decide
      · exact hpure [] (by simp)
    | expression id =>
      have hconditions : P (Misuse.checkConditions c id) := by
        rw [Misuse.checkConditions]
        split
        · exact hcondition _ _
        · exact hcondition _ _
        · exact hcondition _ _
        · exact hpure [] (by simp)
      refine hmore (hwhen config.misuse.conditionals hconditions) ?_
        (Misuse.checkExpression_run config.misuse c id)
      intro d hd hkind
      have hplaced := (Misuse.anchors_checkValues hd).1
      rw [hkind] at hplaced
      cases hplaced
    | classMember declaration member =>
      refine hpure _ fun d hd => ?_
      obtain ⟨name, hkind⟩ := (Misuse.from_checkInherited (Misuse.mem_of_mem_when hd)).kind
      rw [hkind]
      exact fun h => by cases h

theorem records_check {config : Config} {r : Rule} (hr : r ∈ config.rules)
    (hook : Hook) : (r.check c hook).Records c := by
  refine check_of_conditions (fun ds => Check.records_pure)
    (fun _ _ => Misuse.records_checkConditionWithin _ _ _) ?_ hr hook
  intro check check' ds hcheck hds hrun n visits
  have hnone : (keys ds).count (.conditional, n) = 0 := count_keys_eq_zero hds
  rw [hrun, keys_append, List.count_append, hnone]
  exact hcheck n visits

end Rule

/-! ## Runs -/

namespace Config

variable {config : Config} {p : Program}

/-- What is in the log at the end of a run. -/
def finalLog (config : Config) (p : Program) : Log :=
  Log.addAll {} (p.tree.dispatch.flatMap (Rule.checksAt config.activeRules ⟨p, config.shape⟩))

/-- **A run reports the conditions that have been looked at in the end.** -/
theorem count_conditional_eq (h : p.Valid) (n : NodeId) :
    (keys (config.lint p)).count (.conditional, n) =
      Context.reported ⟨p, config.shape⟩ (config.finalLog p).visits n := by
  have hrecords : ∀ check ∈ p.tree.dispatch.flatMap
      (Rule.checksAt config.activeRules ⟨p, config.shape⟩),
      check.Records ⟨p, config.shape⟩ := by
    intro check hcheck
    obtain ⟨hook, _, hcheck⟩ := List.mem_flatMap.1 hcheck
    obtain ⟨r, hr, rfl⟩ := List.mem_map.1 hcheck
    exact Rule.records_check (List.mem_of_mem_filter hr) hook
  have hcount := Log.count_addAll hrecords n {}
  have hkeys : keys (config.lint p) = keys (config.finalLog p).diagnostics.toList := by
    rw [lint, Rule.run_eq_addAll (c := ⟨p, config.shape⟩) h.ordered h.root, keys, List.map_map]
    rfl
  have hnone : Context.reported ⟨p, config.shape⟩ [] n = 0 := by
    rw [Context.reported, looked_of_not_mem List.not_mem_nil, ite_self]
  have hempty : (keys ({} : Log).diagnostics.toList).count (.conditional, n) = 0 := rfl
  rw [hnone, hempty, Nat.zero_add] at hcount
  rw [hkeys]
  exact hcount

/-- **A condition is reported once.** -/
theorem count_conditional_le_one (h : p.Valid) (n : NodeId) :
    (keys (config.lint p)).count (.conditional, n) ≤ 1 := by
  rw [count_conditional_eq h, Context.reported]
  split
  · exact looked_le_one _ n
  · exact Nat.zero_le _

end Config

end ResultLint
