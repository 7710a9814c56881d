import ResultLint.Linter

/-!
# Two runs side by side

To compare two lists of rules on one program, relate the logs of the two runs.  A relation that
holds of the empty logs and is kept by every hook (`statement`, `expression`) holds of the whole
runs: `visitWithin_rel` is the step from one node to all below it, `run_rel` the run.
-/

namespace ResultLint

namespace Tree

variable {σ τ : Type} {R : σ → τ → Prop} {v : Visitor σ} {w : Visitor τ}

/-- Both visitors go on at the same nodes, and the states stay related. -/
structure VisitorRel (R : σ → τ → Prop) (v : Visitor σ) (w : Visitor τ) : Prop where
  statement : ∀ id s s', R s s' →
    (v.statement id s).1 = (w.statement id s').1 ∧ R (v.statement id s).2 (w.statement id s').2
  expression : ∀ id s s', R s s' →
    (v.expression id s).1 = (w.expression id s').1 ∧ R (v.expression id s).2 (w.expression id s').2

theorem VisitorRel.enter (h : VisitorRel R v w) (category : Category) (id : NodeId) {s : σ}
    {s' : τ} (hs : R s s') :
    (v.enter category id s).1 = (w.enter category id s').1 ∧
      R (v.enter category id s).2 (w.enter category id s').2 := by
  cases category with
  | statement => exact h.statement id s s' hs
  | expression => exact h.expression id s s' hs
  | other => exact ⟨rfl, hs⟩

theorem visitWithin_of_get? {t : Tree} {id : NodeId} {node : Node} (h : t.get? id = some node)
    (v : Visitor σ) (depth : Nat) (s : σ) :
    t.visitWithin v (depth + 1) id s =
      if (v.enter node.kind.category id s).1 then
        node.kind.children.foldl (fun s child => t.visitWithin v depth child s)
          (v.enter node.kind.category id s).2
      else (v.enter node.kind.category id s).2 := by
  rw [visitWithin, h]
  rcases he : v.enter node.kind.category id s with ⟨go, s₁⟩
  cases go <;> simp [he]

/-- **What the hooks keep, the visit of a tree keeps.** -/
theorem visitWithin_rel (t : Tree) (h : VisitorRel R v w) (depth : Nat) (id : NodeId) {s : σ}
    {s' : τ} (hs : R s s') : R (t.visitWithin v depth id s) (t.visitWithin w depth id s') := by
  induction depth generalizing id s s' with
  | zero => exact hs
  | succ depth ih =>
    cases hn : t.get? id with
    | none =>
      rw [visitWithin, visitWithin, hn]
      exact hs
    | some node =>
      obtain ⟨hgo, hnext⟩ := h.enter node.kind.category id hs
      rw [visitWithin_of_get? hn, visitWithin_of_get? hn, hgo]
      split
      · exact List.foldl_rel hnext fun child _ _ _ hc => ih child hc
      · exact hnext

end Tree

namespace Log

variable {R : Log → Log → Prop}

theorem toList_diagnostics_add (log : Log) (check : Check) :
    (log.add check).diagnostics.toList =
      log.diagnostics.toList ++ (check.run log.visits).1 := by
  rw [add]
  exact Array.toList_appendList

/-- Lists of checks that keep the logs related when they are added. -/
def AddRel (R : Log → Log → Prop) (checks checks' : List Check) : Prop :=
  ∀ log log', R log log' → R (log.addAll checks) (log'.addAll checks')

theorem addAll_append (log : Log) (checks more : List Check) :
    log.addAll (checks ++ more) = (log.addAll checks).addAll more := by
  rw [addAll, addAll, addAll, List.foldl_append]

theorem AddRel.append {checks checks' more more' : List Check} (h : AddRel R checks checks')
    (hm : AddRel R more more') : AddRel R (checks ++ more) (checks' ++ more') := by
  intro log log' hl
  rw [addAll_append, addAll_append]
  exact hm _ _ (h log log' hl)

theorem AddRel.flatMap {α : Type} {f g : α → List Check} {l : List α}
    (h : ∀ a ∈ l, AddRel R (f a) (g a)) : AddRel R (l.flatMap f) (l.flatMap g) := by
  induction l with
  | nil => exact fun log log' hl => hl
  | cons a l ih =>
    rw [List.flatMap_cons, List.flatMap_cons]
    exact (h a List.mem_cons_self).append (ih fun b hb => h b (List.mem_cons_of_mem a hb))

end Log

namespace Rule

variable {R : Log → Log → Prop} {rules rules' : List Rule} {c : Context}

/-- The hooks of two lists of rules keep logs related. -/
structure HooksRel (R : Log → Log → Prop) (c : Context) (rules rules' : List Rule) : Prop where
  program : ∀ id, Log.AddRel R (rules.map (·.checkProgram c id)) (rules'.map (·.checkProgram c id))
  statement : ∀ id,
    Log.AddRel R (rules.map (·.checkStatement c id)) (rules'.map (·.checkStatement c id))
  expression : ∀ id,
    Log.AddRel R (rules.map (·.checkExpression c id)) (rules'.map (·.checkExpression c id))
  classMember : ∀ id member, Log.AddRel R (rules.map (·.checkClassMember c id member))
    (rules'.map (·.checkClassMember c id member))

theorem HooksRel.memberChecks (h : HooksRel R c rules rules') (id : NodeId) :
    Log.AddRel R (memberChecks rules c id) (memberChecks rules' c id) := by
  rw [Rule.memberChecks, Rule.memberChecks]
  split
  · exact Log.AddRel.flatMap fun member _ => h.classMember id member
  · exact fun log log' hl => hl

theorem HooksRel.visitor (h : HooksRel R c rules rules') :
    Tree.VisitorRel R (visitor rules c) (visitor rules' c) where
  statement id log log' hl := ⟨rfl, h.memberChecks id _ _ (h.statement id log log' hl)⟩
  expression id log log' hl := ⟨rfl, h.expression id log log' hl⟩

/-- **What the hooks keep, the whole run keeps.** -/
theorem run_rel (h : HooksRel R c rules rules') (h₀ : R {} {}) :
    ∃ log log', R log log' ∧ run rules c = log.diagnostics.toList ∧
      run rules' c = log'.diagnostics.toList := by
  refine ⟨_, _, ?_, rfl, rfl⟩
  exact c.tree.visitWithin_rel h.visitor _ _ (h.program c.tree.root _ _ h₀)

end Rule

end ResultLint
