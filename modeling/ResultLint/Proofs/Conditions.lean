import Mathlib
import ResultLint.Proofs.Conditions.Reports
import ResultLint.Proofs.Conditions.Visits
import ResultLint.Proofs.ResultTypes

/-!
# Which conditions are reported

In the end of a run the conditions of the tree have been looked at, and the logical expressions;
those conditions are reported that are always Results.

* `mem_visits_finalLog_iff`: what has been looked at in the end.
* `conditions_reported`: **the conditions that are always Results are reported, each once.**
-/

namespace ResultLint

open Diagnostic (keys)

/-- The nodes that are reported as conditions. -/
def Diagnostic.conditionNodes (ds : List Diagnostic) : List NodeId :=
  (ds.filter (·.kind = .conditional)).map (·.node)

theorem Diagnostic.count_conditionNodes (ds : List Diagnostic) (n : NodeId) :
    (conditionNodes ds).count n = (keys ds).count (.conditional, n) := by
  rw [conditionNodes, keys, List.count, List.count, List.countP_map, List.countP_map,
    List.countP_filter]
  refine List.countP_congr fun d _ => ?_
  simp [key, and_comm]

namespace Config

open Diagnostic (conditionNodes)

variable {config : Config} {p : Program}

theorem misuse_mem_activeRules (hactive : config.isDisabled Misuse.info.name = false) :
    Rule.misuse config.misuse ∈ config.activeRules := by
  refine List.mem_filter.2 ⟨Rule.mem_rules_iff.2 (Or.inr rfl), ?_⟩
  change (!config.isDisabled Misuse.info.name) = true
  rw [hactive]
  rfl

/-- **In the end exactly the conditions and the logical expressions have been looked at.** -/
theorem mem_visits_finalLog_iff (h : p.Valid) (hu : p.tree.Unshared p.tree.root)
    (hactive : config.isDisabled Misuse.info.name = false)
    (hon : config.misuse.conditionals = true) {n : NodeId} :
    (Misuse.conditionKey, n) ∈ (config.finalLog p).visits ↔ p.tree.Examined n := by
  -- nothing is looked at when the rules are called at the root as such
  have hstart : p.tree.Extends [] (Log.addAll {}
      (Rule.checksAt config.activeRules ⟨p, config.shape⟩ (.program p.tree.root))).visits := by
    refine Log.extends_addAll (P := fun _ => True) (fun _ _ => trivial) ?_ {} trivial
    intro check hcheck visits _
    obtain ⟨r, hr, rfl⟩ := List.mem_map.1 hcheck
    rcases Rule.mem_rules_iff.1 (List.mem_of_mem_filter hr) with rfl | rfl <;> exact .refl _ _
  obtain ⟨hrest, hattended⟩ := Rule.extends_checksBelow (c := ⟨p, config.shape⟩) h.ordered hu h.root
    hon (misuse_mem_activeRules hactive) p.tree.root .refl _ hstart
    fun hin => absurd hin (Tree.not_inTest_root h.ordered)
  have hextends := hstart.trans hrest
  rw [finalLog, Tree.dispatch, List.flatMap_cons, List.flatMap_assoc, Log.addAll_append]
  refine ⟨fun hn => ?_, fun hn => hn.mem_visits hextends hattended⟩
  rcases hextends.examined hn with hn | hn
  · exact absurd hn List.not_mem_nil
  · exact hn

/-- **The conditions that are always Results are reported, each once.**  In a tree, with the check of
conditions on, the nodes that are reported as conditions are those below the root that stand in a
test or left of `&&` or `||`, are always Results and are no logical expressions themselves. -/
theorem conditions_reported (h : p.validate = .ok ()) (htree : p.tree.listedParts.Nodup)
    (config : Config) (hactive : config.isDisabled Misuse.info.name = false)
    (hon : config.misuse.conditionals = true) :
    (conditionNodes (config.lint p)).Nodup ∧
    ∀ n, n ∈ conditionNodes (config.lint p) ↔
      p.tree.Reaches p.tree.root n ∧
      (∀ operator left right, p.tree.kind? n ≠ some (.logical operator left right)) ∧
      (⟨p.types, config.shape⟩ : Classifier).isAlwaysResult (p.typeAt n) = true ∧
      p.tree.Condition n := by
  have h : p.Valid := Program.validate_eq_ok_iff.1 h
  have hu : p.tree.Unshared p.tree.root := Tree.unshared_of_nodup_listedParts htree _
  refine ⟨List.nodup_iff_count_le_one.2 fun n => ?_, fun n => ?_⟩
  · rw [Diagnostic.count_conditionNodes]
    exact count_conditional_le_one h n
  · rw [← List.count_pos_iff, Diagnostic.count_conditionNodes, count_conditional_eq h,
      Context.reported_pos_iff, mem_visits_finalLog_iff h hu hactive hon,
      Context.isReportable_iff]
    constructor
    · rintro ⟨⟨hlogical, halways⟩, hn⟩
      refine ⟨hn.reaches, hlogical, halways, ?_⟩
      cases hn with
      | condition hn => exact hn
      | logical _ hk => exact absurd hk (hlogical _ _ _)
    · rintro ⟨_, hlogical, halways, hn⟩
      exact ⟨⟨hlogical, halways⟩, .condition hn⟩

/-- `if ((a ?? (b && !c)) || d) {}` and then `e ?? (f || g)`, where all names are Results. -/
def conditionsProgram : Program :=
  ⟨Classifier.recursiveTable, ⟨#[
    { kind := .identifier "a", type := some ⟨10⟩ },
    { kind := .identifier "b", type := some ⟨12⟩ },
    { kind := .identifier "c", type := some ⟨10⟩ },
    { kind := .unary .not ⟨2⟩, type := some ⟨6⟩ },
    { kind := .logical .and ⟨1⟩ ⟨3⟩, type := some ⟨10⟩ },
    { kind := .logical .nullish ⟨0⟩ ⟨4⟩, type := some ⟨10⟩ },
    { kind := .identifier "d", type := some ⟨10⟩ },
    { kind := .logical .or ⟨5⟩ ⟨6⟩, type := some ⟨10⟩ },
    { kind := .block [] },
    { kind := .ifElse ⟨7⟩ ⟨8⟩ none },
    { kind := .identifier "e", type := some ⟨10⟩ },
    { kind := .identifier "f", type := some ⟨10⟩ },
    { kind := .identifier "g", type := some ⟨10⟩ },
    { kind := .logical .or ⟨11⟩ ⟨12⟩, type := some ⟨10⟩ },
    { kind := .logical .nullish ⟨10⟩ ⟨13⟩, type := some ⟨10⟩ },
    { kind := .expressionStatement ⟨14⟩ },
    { kind := .program [⟨9⟩, ⟨15⟩] }], ⟨16⟩⟩⟩

theorem conditionNodes_conditionsProgram :
    conditionNodes (Config.lint {} conditionsProgram) = [⟨0⟩, ⟨1⟩, ⟨6⟩, ⟨2⟩, ⟨11⟩] := by
  cbv

/-- In the test all operands are conditions, be it under `??`; after it only `f` is, and `e` and `g`
are not. -/
theorem conditions_reported_nested :
    conditionsProgram.validate = .ok () ∧ conditionsProgram.tree.listedParts.Nodup ∧
    (∀ n : NodeId, n ∈ [⟨0⟩, ⟨1⟩, ⟨6⟩, ⟨2⟩, (⟨11⟩ : NodeId)] → conditionsProgram.tree.Condition n) ∧
    ¬ conditionsProgram.tree.Condition ⟨10⟩ ∧ ¬ conditionsProgram.tree.Condition ⟨12⟩ := by
  have hvalid : conditionsProgram.validate = .ok () := rfl
  have htree : conditionsProgram.tree.listedParts.Nodup := by decide
  have hiff := (conditions_reported hvalid htree {} rfl rfl).2
  rw [conditionNodes_conditionsProgram] at hiff
  have halways : (⟨conditionsProgram.types, {}⟩ : Classifier).isAlwaysResult ⟨10⟩ = true := by cbv
  have hidentifier : ∀ {n : NodeId} {name : String},
      conditionsProgram.tree.kind? n = some (.identifier name) → ∀ operator left right,
        conditionsProgram.tree.kind? n ≠ some (.logical operator left right) := by
    intro n name hn operator left right hk
    rw [hn] at hk
    cases hk
  refine ⟨hvalid, htree, fun n hn => ((hiff n).1 hn).2.2.2, fun hn => ?_, fun hn => ?_⟩
  · have hmem := (hiff ⟨10⟩).2 ⟨hn.reaches, hidentifier rfl, halways, hn⟩
    exact absurd hmem (by decide)
  · have hmem := (hiff ⟨12⟩).2 ⟨hn.reaches, hidentifier rfl, halways, hn⟩
    exact absurd hmem (by decide)

end Config

end ResultLint
