import Mathlib.Logic.Basic
import ResultLint.Proofs.Reports
import ResultLint.Proofs.Traversal

/-!
# Switches only select

A configuration with the shape of Results left as it is can only take diagnostics away: what a run
finds under it is what a run with everything switched on finds, less the diagnostics that are
switched off.  The two runs are compared hook by hook (`Selects`, `Selected`).  They share the nodes
that the check of conditions has looked at as long as that check is on, and nobody asks for these
nodes when it is off.

* `selected_condition`, `selected_pure`, `selected_append`: one check.
* `hooksRel_selects`: the hooks of the active rules against those of all rules.
* `lint_selects`: **the result of linting, and what follows for single switches.**
-/

namespace ResultLint

/-- The kind of diagnostic is not switched off.  Dropped Results have no switch. -/
def MisuseChecks.enables (checks : MisuseChecks) : DiagnosticKind → Bool
  | .floating => true
  | .floatingResultArray => true
  | .conditional => checks.conditionals
  | .voidReturnArgument => checks.voidReturn.arguments
  | .voidReturnVariable => checks.voidReturn.assignments
  | .voidReturnProperty => checks.voidReturn.properties
  | .voidReturnReturnValue => checks.voidReturn.returns
  | .voidReturnAttribute => checks.voidReturn.attributes
  | .spread => checks.spreads
  | .predicate => checks.predicates
  | .voidReturnInheritedMethod _ => checks.voidReturn.inheritedMethods

namespace Config

/-- The rule of the diagnostic is not off, and neither is its kind. -/
def keeps (config : Config) (d : Diagnostic) : Bool :=
  !config.isDisabled d.rule && config.misuse.enables d.kind

/-- The configuration with the same shape, without overrides and with every check on. -/
def everything (config : Config) : Config where
  overrides := []
  shape := config.shape
  misuse := ⟨true, VoidReturnChecks.all, true, true⟩

variable {config : Config}

/-! ## Lists of diagnostics -/

/-- `ds` is what is switched on of the diagnostics `full` of a rule. -/
structure Kept (config : Config) (info : RuleInfo) (ds full : List Diagnostic) : Prop where
  eq_filter : ds = full.filter fun d => config.misuse.enables d.kind
  from_rule : ∀ d ∈ full, d.From info (·.rule = info)

theorem kept_nil {info : RuleInfo} : config.Kept info [] [] := ⟨rfl, by simp⟩

theorem Kept.append {info : RuleInfo} {ds ds' full full' : List Diagnostic}
    (h : config.Kept info ds full) (h' : config.Kept info ds' full') :
    config.Kept info (ds ++ ds') (full ++ full') := by
  refine ⟨?_, fun d hd => ?_⟩
  · rw [List.filter_append, ← h.eq_filter, ← h'.eq_filter]
  · rcases List.mem_append.1 hd with hd | hd
    · exact h.from_rule d hd
    · exact h'.from_rule d hd

/-- What a check finds is all kept or all switched off. -/
theorem kept_when {flag : Bool} {ds : List Diagnostic} {K : DiagnosticKind → Prop}
    (hfrom : ∀ d ∈ ds, d.From Misuse.info K)
    (hK : ∀ k, K k → k.rule = Misuse.info ∧ config.misuse.enables k = flag) :
    config.Kept Misuse.info (Misuse.when flag ds) (Misuse.when true ds) := by
  refine ⟨?_, fun d hd => (hfrom d hd).imp fun k hk => (hK k hk).1⟩
  have hall : ∀ d ∈ ds, config.misuse.enables d.kind = flag :=
    fun d hd => (hK _ (hfrom d hd).kind).2
  cases flag with
  | true => exact (List.filter_eq_self.2 hall).symm
  | false =>
    refine (List.filter_eq_nil_iff.2 fun d hd => ?_).symm
    simp [hall d hd]

theorem kept_when_kind (kind : DiagnosticKind) {ds : List Diagnostic}
    (hfrom : ∀ d ∈ ds, d.From Misuse.info (· = kind)) (hkind : kind.rule = Misuse.info) :
    config.Kept Misuse.info (Misuse.when (config.misuse.enables kind) ds)
      (Misuse.when true ds) := by
  refine kept_when hfrom ?_
  rintro _ rfl
  exact ⟨hkind, rfl⟩

/-! ## One check -/

/-- Conditions are checked. -/
def checksConditions (config : Config) : Bool :=
  !config.isDisabled Misuse.info.name && config.misuse.conditionals

/-- A check of a rule, which finds nothing if the rule is off. -/
def active (config : Config) (info : RuleInfo) (check : Check) : Check :=
  if config.isDisabled info.name then pure [] else check

/-- The first check finds what is kept of the second, and leaves the same nodes behind if it
matters. -/
def Selected (config : Config) (check full : Check) : Prop :=
  ∀ visits visits', (config.checksConditions = true → visits = visits') →
    (check.run visits).1 = (full.run visits').1.filter config.keeps ∧
    (config.checksConditions = true → (check.run visits).2 = (full.run visits').2) ∧
    ∀ d ∈ (full.run visits').1, ∃ info, d.From info (·.rule = info)

theorem selected_pure {info : RuleInfo} {ds full : List Diagnostic}
    (h : config.Kept info ds full) :
    config.Selected (config.active info (pure ds)) (pure full) := by
  intro visits visits' hv
  refine ⟨?_, ?_, fun d hd => ⟨info, h.from_rule d hd⟩⟩
  · by_cases hoff : config.isDisabled info.name = true
    · rw [active, if_pos hoff]
      refine (List.filter_eq_nil_iff.2 fun d hd => ?_).symm
      simp [keeps, (h.from_rule d hd).rule, hoff]
    · rw [active, if_neg hoff, h.eq_filter]
      refine List.filter_congr fun d hd => ?_
      simp [keeps, (h.from_rule d hd).rule, hoff]
  · intro hon
    rw [active]
    split <;> exact hv hon

theorem active_whenCheck (check : Check) :
    config.active Misuse.info (Misuse.whenCheck config.misuse.conditionals check) =
      if config.checksConditions then check else pure [] := by
  rw [active, Misuse.whenCheck, checksConditions]
  cases config.isDisabled Misuse.info.name <;> rfl

/-- The check of conditions runs as it is, or not at all. -/
theorem selected_condition {check : Check}
    (h : ∀ visits, ∀ d ∈ (check.run visits).1, d.From Misuse.info (· = .conditional)) :
    config.Selected (config.active Misuse.info (Misuse.whenCheck config.misuse.conditionals check))
      (Misuse.whenCheck true check) := by
  intro visits visits' hv
  have hfrom : ∀ d ∈ (check.run visits').1, ∃ info, d.From info (·.rule = info) :=
    fun d hd => ⟨Misuse.info, (h _ d hd).imp (by rintro _ rfl; rfl)⟩
  have hkeep : ∀ d ∈ (check.run visits').1, config.keeps d = config.checksConditions := by
    intro d hd
    rw [keeps, checksConditions, (h _ d hd).rule, (h _ d hd).kind]
    rfl
  rw [active_whenCheck]
  cases hon : config.checksConditions with
  | true =>
    rw [hon] at hkeep
    obtain rfl := hv hon
    exact ⟨(List.filter_eq_self.2 hkeep).symm, fun _ => rfl, hfrom⟩
  | false =>
    rw [hon] at hkeep
    refine ⟨(List.filter_eq_nil_iff.2 fun d hd => ?_).symm, nofun, hfrom⟩
    simp [hkeep d hd]

theorem active_append (info : RuleInfo) (check : Check) (ds : List Diagnostic) :
    config.active info (do let found ← check; return found ++ ds) =
      (do let found ← config.active info check
          let more ← config.active info (pure ds)
          return found ++ more) := by
  rw [active, active, active]
  split <;> rfl

/-- A check and then some diagnostics. -/
theorem selected_append {info : RuleInfo} {check full : Check} {ds more : List Diagnostic}
    (h : config.Selected (config.active info check) full) (hds : config.Kept info ds more) :
    config.Selected (config.active info (do let found ← check; return found ++ ds))
      (do let found ← full; return found ++ more) := by
  intro visits visits' hv
  rw [active_append]
  obtain ⟨h₁, hv₁, hs₁⟩ := h visits visits' hv
  obtain ⟨h₂, hv₂, hs₂⟩ := selected_pure hds _ _ hv₁
  refine ⟨?_, hv₂, fun d hd => ?_⟩
  · exact (congrArg₂ (· ++ ·) h₁ h₂).trans (List.filter_append ..).symm
  · rcases List.mem_append.1 hd with hd | hd
    · exact hs₁ d hd
    · exact hs₂ d hd

/-! ## Hooks -/

theorem selected_floating_statement (c : Context) (id : NodeId) :
    config.Selected (config.active Floating.info (pure (Floating.checkStatement c id)))
      (pure (Floating.checkStatement c id)) := by
  refine selected_pure ⟨(List.filter_eq_self.2 fun d hd => ?_).symm, fun d hd => ?_⟩
  · rcases (Floating.from_checkStatement hd).kind with hk | hk <;> rw [hk] <;> rfl
  · exact (Floating.from_checkStatement hd).imp (by rintro _ (rfl | rfl) <;> rfl)

theorem selected_misuse_statement (c : Context) (id : NodeId) :
    config.Selected (config.active Misuse.info (Misuse.checkStatement config.misuse c id))
      (Misuse.checkStatement config.everything.misuse c id) := by
  have hcondition : ∀ test, config.Selected
      (config.active Misuse.info
        (Misuse.whenCheck config.misuse.conditionals (Misuse.checkCondition c true test)))
      (Misuse.whenCheck true (Misuse.checkCondition c true test)) :=
    fun test => selected_condition fun _ _ hd => Misuse.from_checkConditionWithin hd
  rw [Misuse.checkStatement, Misuse.checkStatement]
  split
  next test _ _ _ => exact hcondition test
  next test _ _ => exact hcondition test
  next test _ => exact hcondition _
  next test _ _ => exact hcondition _
  next argument _ =>
    refine selected_pure (kept_when_kind .voidReturnReturnValue (fun d hd => ?_) rfl)
    exact Misuse.from_checkReturn hd
  next declarators _ =>
    refine selected_pure (kept_when_kind .voidReturnVariable (fun d hd => ?_) rfl)
    obtain ⟨declarator, _, hd⟩ := List.mem_flatMap.1 hd
    exact Misuse.from_checkDeclarator hd
  next => exact selected_pure kept_nil

theorem kept_values (c : Context) (id : NodeId) :
    config.Kept Misuse.info (Misuse.checkValues config.misuse c id)
      (Misuse.checkValues config.everything.misuse c id) := by
  rw [Misuse.checkValues, Misuse.checkValues]
  split
  next callee arguments _ _ =>
    exact (kept_when_kind .voidReturnArgument (fun _ => Misuse.from_checkArguments) rfl).append
      (kept_when_kind .predicate (fun _ => Misuse.from_checkPredicate) rfl)
  next callee arguments _ =>
    exact kept_when_kind .voidReturnArgument (fun _ => Misuse.from_checkArguments) rfl
  next left right _ =>
    exact kept_when_kind .voidReturnVariable (fun _ => Misuse.from_checkAssignment) rfl
  next properties _ =>
    refine (kept_when_kind .voidReturnProperty (fun d hd => ?_) rfl).append
      (kept_when_kind .spread (fun _ => Misuse.from_checkSpreads) rfl)
    obtain ⟨property, _, hd⟩ := List.mem_flatMap.1 hd
    exact Misuse.from_checkProperty hd
  next elements _ =>
    exact kept_when_kind .spread (fun _ => Misuse.from_checkSpreads) rfl
  next attributes _ _ =>
    refine kept_when_kind .voidReturnAttribute (fun d hd => ?_) rfl
    obtain ⟨attr, _, hd⟩ := List.mem_flatMap.1 hd
    exact Misuse.from_checkAttribute hd
  next => exact kept_nil

theorem from_checkConditions {c : Context} {id : NodeId} {visits : Visits} {d : Diagnostic}
    (h : d ∈ ((Misuse.checkConditions c id).run visits).1) :
    d.From Misuse.info (· = .conditional) := by
  rw [Misuse.checkConditions] at h
  split at h
  · exact Misuse.from_checkConditionWithin h
  · exact Misuse.from_checkConditionWithin h
  · exact Misuse.from_checkConditionWithin h
  · rw [run_pure] at h
    simp at h

theorem selected_misuse_expression (c : Context) (id : NodeId) :
    config.Selected (config.active Misuse.info (Misuse.checkExpression config.misuse c id))
      (Misuse.checkExpression config.everything.misuse c id) :=
  selected_append (selected_condition fun _ _ hd => from_checkConditions hd) (kept_values c id)

theorem selected_misuse_classMember (c : Context) (id member : NodeId) :
    config.Selected
      (config.active Misuse.info ((Rule.misuse config.misuse).checkClassMember c id member))
      ((Rule.misuse config.everything.misuse).checkClassMember c id member) := by
  refine selected_pure (kept_when (fun _ => Misuse.from_checkInherited) ?_)
  rintro _ ⟨name, rfl⟩
  exact ⟨rfl, rfl⟩

/-! ## Runs -/

/-- The first log holds what is kept of the second. -/
structure Selects (config : Config) (log full : Log) : Prop where
  diagnostics : log.diagnostics.toList = full.diagnostics.toList.filter config.keeps
  visits : config.checksConditions = true → log.visits = full.visits
  from_rule : ∀ d ∈ full.diagnostics.toList, ∃ info, d.From info (·.rule = info)

theorem Selects.add {log full : Log} (h : config.Selects log full) {check check' : Check}
    (hc : config.Selected check check') : config.Selects (log.add check) (full.add check') := by
  obtain ⟨hd, hv, hs⟩ := hc log.visits full.visits h.visits
  refine ⟨?_, hv, fun d hmem => ?_⟩
  · rw [Log.toList_diagnostics_add, Log.toList_diagnostics_add, List.filter_append, h.diagnostics,
      hd]
  · rw [Log.toList_diagnostics_add] at hmem
    rcases List.mem_append.1 hmem with hmem | hmem
    · exact h.from_rule d hmem
    · exact hs d hmem

theorem addAll_activeRules (config : Config) (hook : Rule → Check) (log : Log) :
    log.addAll (config.activeRules.map hook) =
      (log.add (config.active Floating.info (hook .floating))).add
        (config.active Misuse.info (hook (.misuse config.misuse))) := by
  have hnone : ∀ log : Log, log.add (pure []) = log := by
    intro log
    rw [Log.add, run_pure]
    simp
  have hf : (Rule.floating).info = Floating.info := rfl
  have hm : (Rule.misuse config.misuse).info = Misuse.info := rfl
  by_cases hoff : config.isDisabled Floating.info.name = true <;>
    by_cases hoff' : config.isDisabled Misuse.info.name = true <;>
      simp [activeRules, rules, hf, hm, hoff, hoff', active, hnone, Log.addAll]

theorem addRel_selects {hook : Rule → Check}
    (hf : config.Selected (config.active Floating.info (hook .floating)) (hook .floating))
    (hm : config.Selected (config.active Misuse.info (hook (.misuse config.misuse)))
      (hook (.misuse config.everything.misuse))) :
    Log.AddRel config.Selects (config.activeRules.map hook)
      (config.everything.activeRules.map hook) := by
  intro log full h
  rw [addAll_activeRules]
  exact (h.add hf).add hm

/-- **Every hook of the active rules finds what is kept of the hook of all rules.** -/
theorem hooksRel_selects (config : Config) (c : Context) :
    Rule.HooksRel config.Selects c config.activeRules config.everything.activeRules where
  program _ := addRel_selects (selected_pure kept_nil) (selected_pure kept_nil)
  statement id :=
    addRel_selects (selected_floating_statement c id) (selected_misuse_statement c id)
  expression id := addRel_selects (selected_pure kept_nil) (selected_misuse_expression c id)
  classMember id member :=
    addRel_selects (selected_pure kept_nil) (selected_misuse_classMember c id member)

theorem run_eq_filter (config : Config) (c : Context) :
    Rule.run config.activeRules c =
      (Rule.run config.everything.activeRules c).filter config.keeps := by
  obtain ⟨log, full, h, hlog, hfull⟩ :=
    Rule.run_rel (config.hooksRel_selects c) ⟨rfl, fun _ => rfl, by simp⟩
  rw [hlog, hfull, h.diagnostics]

/-- Diagnostics carry the name of the rule for their kind, and are errors. -/
theorem rule_of_mem_run {c : Context} {d : Diagnostic}
    (h : d ∈ Rule.run config.everything.activeRules c) :
    d.rule = d.kind.rule.name ∧ d.severity = .error := by
  obtain ⟨log, full, hs, _, hfull⟩ :=
    Rule.run_rel (config.hooksRel_selects c) ⟨rfl, fun _ => rfl, by simp⟩
  rw [hfull] at h
  obtain ⟨info, hd⟩ := hs.from_rule d h
  refine ⟨by rw [hd.kind, hd.rule], ?_⟩
  rw [hd.severity, ← hd.kind]
  cases d.kind <;> rfl

/-- Without overrides the diagnostics are those of the run. -/
theorem lint_everything (config : Config) (p : Program) :
    config.everything.lint p = Rule.run config.everything.activeRules ⟨p, config.shape⟩ :=
  List.map_id'' (fun _ => rfl) _

/-- **Linting selects from what linting with everything on finds**, and sets the severity. -/
theorem lint_eq_filter_map (config : Config) (p : Program) :
    config.lint p = ((config.everything.lint p).filter config.keeps).map fun d =>
      { d with severity := (config.override? d.rule).getD .error } := by
  rw [lint, run_eq_filter, lint_everything]
  refine List.map_congr_left fun d hd => ?_
  rw [applySeverity, severity, (rule_of_mem_run (List.mem_filter.1 hd).1).2]

/-! ## Single switches -/

theorem rule_of_mem_lint {p : Program} {d : Diagnostic} (h : d ∈ config.everything.lint p) :
    d.rule = d.kind.rule.name := by
  rw [lint_everything] at h
  exact (rule_of_mem_run h).1

/-- Rules that are off report nothing, so nothing is reported as off. -/
theorem severity_ne_off {p : Program} {d : Diagnostic} (h : d ∈ config.lint p) :
    d.severity ≠ .off := by
  rw [lint_eq_filter_map] at h
  obtain ⟨e, he, rfl⟩ := List.mem_map.1 h
  have hkept := (List.mem_filter.1 he).2
  intro hoff
  cases hover : config.override? e.rule with
  | none => simp [hover] at hoff
  | some severity =>
    simp only [hover, Option.getD_some] at hoff
    subst hoff
    simp [keeps, isDisabled, hover] at hkept

/-- **Kinds whose switch and rule are left alone are reported as before**, in the same order. -/
theorem filter_lint_congr {other : Config} (hshape : other.shape = config.shape)
    {K : DiagnosticKind → Bool}
    (hK : ∀ kind, K kind = true → other.misuse.enables kind = config.misuse.enables kind ∧
      other.override? kind.rule.name = config.override? kind.rule.name) (p : Program) :
    (other.lint p).filter (fun d => K d.kind) = (config.lint p).filter fun d => K d.kind := by
  have hall : other.everything = config.everything := by rw [everything, everything, hshape]
  rw [other.lint_eq_filter_map, config.lint_eq_filter_map, hall, List.filter_map, List.filter_map,
    List.filter_filter, List.filter_filter]
  have hagree : ∀ d ∈ config.everything.lint p, K d.kind = true →
      other.override? d.rule = config.override? d.rule ∧ other.keeps d = config.keeps d := by
    intro d hd hk
    obtain ⟨henables, hover⟩ := hK d.kind hk
    rw [← rule_of_mem_lint hd] at hover
    exact ⟨hover, by rw [keeps, keeps, isDisabled, isDisabled, hover, henables]⟩
  have hfilter : (config.everything.lint p).filter (fun d => K d.kind && other.keeps d) =
      (config.everything.lint p).filter fun d => K d.kind && config.keeps d := by
    refine List.filter_congr fun d hd => ?_
    cases hk : K d.kind with
    | false => rfl
    | true => rw [(hagree d hd hk).2]
  refine (congrArg _ hfilter).trans (List.map_congr_left fun d hd => ?_)
  obtain ⟨hd, hk⟩ := List.mem_filter.1 hd
  rw [(hagree d hd (Bool.and_eq_true_iff.1 hk).1).1]

theorem override?_setSeverity_of_ne {name rule : String} (h : rule ≠ name) (severity : Severity) :
    (config.setSeverity name severity).override? rule = config.override? rule := by
  have hfind : (config.overrides.filter (·.1 ≠ name)).find? (·.1 = rule) =
      config.overrides.find? (·.1 = rule) := by
    rw [List.find?_filter]
    refine congrArg (fun q => List.find? q config.overrides) (funext fun entry => ?_)
    by_cases he : entry.1 = rule
    · simp [he, h]
    · simp [he]
  rw [override?, override?, setSeverity, List.find?_cons_of_neg (by simpa using h.symm), hfind]

theorem lint_setSeverity {name : String} (hf : name ≠ Floating.info.name)
    (hm : name ≠ Misuse.info.name) (severity : Severity) (p : Program) :
    (config.setSeverity name severity).lint p = config.lint p := by
  have hname : ∀ kind : DiagnosticKind, kind.rule.name ≠ name := by
    intro kind
    cases kind <;> first | exact hf.symm | exact hm.symm
  have hshape : (config.setSeverity name severity).shape = config.shape := rfl
  have h : ((config.setSeverity name severity).lint p).filter (fun _ => true) =
      (config.lint p).filter fun _ => true :=
    filter_lint_congr (K := fun _ => true) hshape
      (fun kind _ => ⟨rfl, override?_setSeverity_of_ne (hname kind) severity⟩) p
  rwa [List.filter_eq_self.2 fun _ _ => rfl, List.filter_eq_self.2 fun _ _ => rfl] at h

/-- **Switches only select.**  Under a configuration, linting gives the diagnostics that it gives
with everything on, in the same order, less those whose rule or kind is off, each with the severity
that is set for its rule.  So a switch leaves all other kinds alone, rules of other names play no
part, and nothing is reported as off. -/
theorem lint_selects (config : Config) (p : Program) :
    config.lint p = ((config.everything.lint p).filter fun d =>
        !config.isDisabled d.rule && config.misuse.enables d.kind).map
      (fun d => { d with severity := (config.override? d.rule).getD .error }) ∧
    (∀ (other : Config) (K : DiagnosticKind → Bool), other.shape = config.shape →
      (∀ kind, K kind = true → other.misuse.enables kind = config.misuse.enables kind ∧
        other.override? kind.rule.name = config.override? kind.rule.name) →
      (other.lint p).filter (fun d => K d.kind) = (config.lint p).filter fun d => K d.kind) ∧
    (∀ name severity, name ≠ Floating.info.name → name ≠ Misuse.info.name →
      (config.setSeverity name severity).lint p = config.lint p) ∧
    ∀ d ∈ config.lint p, d.severity ≠ .off :=
  ⟨config.lint_eq_filter_map p, fun _ _ hshape hK => filter_lint_congr hshape hK p,
    fun _ severity hf hm => lint_setSeverity hf hm severity p, fun _ => severity_ne_off⟩

end Config

end ResultLint
