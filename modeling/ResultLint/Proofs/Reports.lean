import ResultLint.Linter

/-!
# Where diagnostics come from

Every check reports in the name of its rule, with the severity of the rule, and each check has its
own kind of diagnostic.  `Diagnostic.From` says this of one diagnostic; there is one lemma per
check.  The check of conditions is the only one with a state: `checkConditionWithin_run` writes out
what one level of it does to the nodes looked at.
-/

namespace ResultLint

/-- The diagnostic is of such a kind and comes from the rule, as the rule reports it. -/
structure Diagnostic.From (info : RuleInfo) (K : DiagnosticKind → Prop) (d : Diagnostic) :
    Prop where
  rule : d.rule = info.name
  code : d.code = info.code
  severity : d.severity = info.severity
  kind : K d.kind

theorem Diagnostic.From.imp {info : RuleInfo} {K L : DiagnosticKind → Prop} {d : Diagnostic}
    (h : d.From info K) (hKL : ∀ k, K k → L k) : d.From info L :=
  ⟨h.rule, h.code, h.severity, hKL _ h.kind⟩

/-- The rule that reports diagnostics of a kind. -/
def DiagnosticKind.rule : DiagnosticKind → RuleInfo
  | floating => Floating.info
  | floatingResultArray => Floating.info
  | _ => Misuse.info

theorem Context.report_from (c : Context) (info : RuleInfo) (kind : DiagnosticKind)
    (node : NodeId) : (c.report info kind node).From info (· = kind) :=
  ⟨rfl, rfl, rfl, rfl⟩

theorem run_pure (ds : List Diagnostic) (visits : Visits) :
    (pure ds : Check).run visits = (ds, visits) :=
  rfl

/-- A node that was looked at before is not looked at again. -/
theorem run_firstVisit_bind (key : String) (node : NodeId) (next : Bool → Check)
    (visits : Visits) :
    (firstVisit key node >>= next).run visits =
      if (key, node) ∈ visits then (next false).run visits
      else (next true).run ((key, node) :: visits) := by
  rw [StateT.run_bind]
  change (next (firstVisit key node visits).1).run (firstVisit key node visits).2 = _
  rw [firstVisit]
  split <;> rfl

namespace Floating

theorem from_checkStatement {c : Context} {statement : NodeId} {d : Diagnostic}
    (h : d ∈ checkStatement c statement) :
    d.From info fun k => k = .floating ∨ k = .floatingResultArray := by
  rw [checkStatement] at h
  split at h
  · rw [Option.mem_toList, Option.map_eq_some_iff] at h
    obtain ⟨dropped, _, rfl⟩ := h
    cases dropped with
    | result => exact ⟨rfl, rfl, rfl, Or.inl rfl⟩
    | resultArray => exact ⟨rfl, rfl, rfl, Or.inr rfl⟩
  · simp at h

end Floating

namespace Misuse

variable {c : Context} {d : Diagnostic}

/-! ## Conditions -/

/-- One level of the check of a condition, with the nodes looked at before and after. -/
theorem checkConditionWithin_run (c : Context) (depth : Nat) (inTest : Bool) (node : NodeId)
    (visits : Visits) :
    (checkConditionWithin c (depth + 1) inTest node).run visits =
      if (conditionKey, node) ∈ visits then ([], visits)
      else
        match c.tree.kind? node with
        | some (.logical operator left right) =>
          let first :=
            if operator ≠ .nullish || inTest then
              (checkConditionWithin c depth inTest left).run ((conditionKey, node) :: visits)
            else ([], (conditionKey, node) :: visits)
          let second :=
            if inTest then (checkConditionWithin c depth inTest right).run first.2
            else ([], first.2)
          (first.1 ++ second.1, second.2)
        | _ =>
          (if c.isAlwaysResult node then [c.report info .conditional node] else [],
            (conditionKey, node) :: visits) := by
  rw [checkConditionWithin, run_firstVisit_bind]
  by_cases hv : (conditionKey, node) ∈ visits
  · rw [if_pos hv, if_pos hv]
    rfl
  · rw [if_neg hv, if_neg hv]
    cases c.tree.kind? node with
    | none => rfl
    | some kind =>
      cases kind with
      | logical operator left right => cases inTest <;> cases operator <;> rfl
      | _ => rfl

theorem from_checkConditionWithin {depth : Nat} {inTest : Bool} {node : NodeId} {visits : Visits}
    (h : d ∈ ((checkConditionWithin c depth inTest node).run visits).1) :
    d.From info (· = .conditional) := by
  induction depth generalizing inTest node visits with
  | zero =>
    rw [checkConditionWithin, run_pure] at h
    simp at h
  | succ depth ih =>
    rw [checkConditionWithin_run] at h
    split at h
    · simp at h
    · split at h
      · rcases List.mem_append.1 h with h | h
        · split at h
          · exact ih h
          · simp at h
        · split at h
          · exact ih h
          · simp at h
      · split at h
        · rw [List.mem_singleton.1 h]
          exact c.report_from _ _ _
        · simp at h

/-! ## Collections -/

theorem from_map_report {kind : DiagnosticKind} {nodes : List NodeId}
    (h : d ∈ nodes.map (c.report info kind)) : d.From info (· = kind) := by
  obtain ⟨node, _, rfl⟩ := List.mem_map.1 h
  exact c.report_from _ _ _

theorem from_checkSpreads {entries : List NodeId} (h : d ∈ checkSpreads c entries) :
    d.From info (· = .spread) :=
  from_map_report h

theorem from_checkPredicate {callee : NodeId} {arguments : List NodeId}
    (h : d ∈ checkPredicate c callee arguments) : d.From info (· = .predicate) := by
  cases arguments with
  | nil => simp [checkPredicate] at h
  | cons predicate _ =>
    rw [checkPredicate] at h
    split at h
    · rw [List.mem_singleton.1 h]
      exact c.report_from _ _ _
    · simp at h

/-! ## Functions that should return nothing -/

theorem from_reportIf {condition : Bool} {kind : DiagnosticKind} {node : NodeId}
    (h : d ∈ reportIf c condition kind node) : d.From info (· = kind) := by
  rw [reportIf] at h
  split at h
  · rw [List.mem_singleton.1 h]
    exact c.report_from _ _ _
  · simp at h

theorem from_checkArguments {kind : CallKind} {callee : NodeId} {arguments : Option (List NodeId)}
    (h : d ∈ checkArguments c kind callee arguments) : d.From info (· = .voidReturnArgument) :=
  from_map_report h

theorem from_checkAssignment {left right : NodeId} (h : d ∈ checkAssignment c left right) :
    d.From info (· = .voidReturnVariable) :=
  from_reportIf h

theorem from_checkDeclarator {declarator : NodeId} (h : d ∈ checkDeclarator c declarator) :
    d.From info (· = .voidReturnVariable) := by
  rw [checkDeclarator] at h
  split at h
  · exact from_checkAssignment h
  · simp at h

theorem from_checkProperty {object property : NodeId} (h : d ∈ checkProperty c object property) :
    d.From info (· = .voidReturnProperty) := by
  rw [checkProperty] at h
  split at h
  · exact from_reportIf h
  · simp at h

theorem from_checkReturn {argument : NodeId} (h : d ∈ checkReturn c argument) :
    d.From info (· = .voidReturnReturnValue) :=
  from_reportIf h

theorem from_checkAttribute {attr : NodeId} (h : d ∈ checkAttribute c attr) :
    d.From info (· = .voidReturnAttribute) := by
  rw [checkAttribute] at h
  split at h
  · exact from_reportIf h
  · simp at h

/-- Types are collected in the order of their first occurrence, each once. -/
theorem nodup_and_mem_collected (types ids : List TypeId) (hids : ids.Nodup) :
    (types.foldl (fun ids id => if id ∈ ids then ids else ids ++ [id]) ids).Nodup ∧
      ∀ r, r ∈ types.foldl (fun ids id => if id ∈ ids then ids else ids ++ [id]) ids ↔
        r ∈ ids ∨ r ∈ types := by
  induction types generalizing ids with
  | nil => exact ⟨hids, by simp⟩
  | cons id types ih =>
    rw [List.foldl_cons]
    by_cases hid : id ∈ ids
    · rw [if_pos hid]
      refine ⟨(ih ids hids).1, fun r => ?_⟩
      rw [(ih ids hids).2, List.mem_cons]
      grind
    · rw [if_neg hid]
      have happend : (ids ++ [id]).Nodup := by
        rw [List.nodup_append]
        refine ⟨hids, by simp, fun r hr s hs hrs => hid ?_⟩
        rwa [← List.mem_singleton.1 hs, ← hrs]
      refine ⟨(ih _ happend).1, fun r => ?_⟩
      rw [(ih _ happend).2, List.mem_append, List.mem_singleton, List.mem_cons, or_assoc]

theorem nodup_heritageTypes (c : Context) (heritage : List NodeId) :
    (heritageTypes c heritage).Nodup :=
  (nodup_and_mem_collected _ [] List.nodup_nil).1

theorem mem_heritageTypes_iff {heritage : List NodeId} {r : TypeId} :
    r ∈ heritageTypes c heritage ↔ ∃ n ∈ heritage, c.program.typeAt n = r := by
  rw [heritageTypes, (nodup_and_mem_collected _ [] List.nodup_nil).2]
  simp

theorem from_checkInherited {declaration member : NodeId}
    (h : d ∈ checkInherited c declaration member) :
    d.From info fun k => ∃ name, k = .voidReturnInheritedMethod name := by
  rw [checkInherited] at h
  split at h
  · split at h
    · obtain ⟨parent, _, rfl⟩ := List.mem_map.1 h
      exact ⟨rfl, rfl, rfl, _, rfl⟩
    · simp at h
  · simp at h

end Misuse

end ResultLint
