import ResultLint.Proofs.Access.Run
import ResultLint.Proofs.Anchors

/-!
# What a run depends on

A run calls the rules at the hooks of the tree, in the order of its unfolding, and gives what they
answer.  The two rules report nodes below the root only, and look at nothing else: nodes that the
root does not lead to can be changed at will.

* `reaches_of_mem_lint`: **every diagnostic is on a node below the root.**
* `lint_congr`: **programs that agree below the root have the same diagnostics.**  Linting looks
  nodes up below the root only, so the lookups of one program do for the other.
* `dispatches_preorder`: the calls of a run and what follows from them.
-/

namespace ResultLint

namespace Tree

variable {t u : Tree}

/-- The trees agree on what is below the root of the first. -/
structure AgreesBelow (t u : Tree) : Prop where
  root : u.root = t.root
  get? : ∀ {id : NodeId}, t.Reaches t.root id → u.get? id = t.get? id

/-- What is below the root of the one is below the root of the other. -/
theorem AgreesBelow.reaches (h : t.AgreesBelow u) {id : NodeId} (hid : u.Reaches u.root id) :
    t.Reaches t.root id := by
  rw [h.root] at hid
  induction hid with
  | refl => exact .refl
  | @tail a b _ hab ih =>
    refine ih.tail ?_
    rw [Child, children, kind?, h.get? ih] at hab
    exact hab

/-- **If nothing is shared, every node below the root is met exactly once.** -/
theorem count_preorder (h : t.Ordered) (hu : t.Unshared t.root) {id : NodeId}
    (hid : t.Reaches t.root id) : (t.preorder t.root).count id = 1 :=
  List.count_eq_one_of_mem (nodup_preorder h hu) ((mem_preorder_iff h).2 hid)

end Tree

/-- Whatever is found comes from a check, with some nodes looked at before. -/
theorem Check.exists_of_mem_answers {α : Type} {check : α → Check} {calls : List α}
    {visits : Visits} {d : Diagnostic}
    (h : d ∈ (Check.answers (calls.map check) visits).flatten) :
    ∃ call ∈ calls, ∃ visits, d ∈ ((check call).run visits).1 := by
  induction calls generalizing visits with
  | nil => simp [Check.answers] at h
  | cons call calls ih =>
    rw [List.map_cons, Check.answers, List.flatten_cons] at h
    rcases List.mem_append.1 h with h | h
    · exact ⟨call, List.mem_cons_self, visits, h⟩
    · obtain ⟨x, hx, hd⟩ := ih h
      exact ⟨x, List.mem_cons_of_mem call hx, hd⟩

namespace Config

variable {config : Config} {p : Program}

/-- What is found in a run of the rules belongs to a hook of the tree. -/
theorem exists_anchors_of_mem_run (h : p.Valid) {d : Diagnostic}
    (hd : d ∈ Rule.run config.activeRules ⟨p, config.shape⟩) :
    ∃ hook ∈ p.tree.dispatch, hook.Anchors p.tree d.kind d.node := by
  rw [Rule.run_eq_answers (c := ⟨p, config.shape⟩) h.ordered h.root] at hd
  obtain ⟨⟨r, hook⟩, hcall, visits, hd⟩ := Check.exists_of_mem_answers hd
  obtain ⟨hook', hhook, hr⟩ := List.mem_flatMap.1 hcall
  obtain ⟨r', hr', heq⟩ := List.mem_map.1 hr
  cases heq
  exact ⟨hook, hhook, (Rule.anchors_of_mem_rules (List.mem_of_mem_filter hr') hd).1⟩

/-- **Every diagnostic is on a node below the root.** -/
theorem reaches_of_mem_lint (h : p.Valid) {d : Diagnostic} (hd : d ∈ config.lint p) :
    p.tree.Reaches p.tree.root d.node := by
  obtain ⟨d', hd', rfl⟩ := List.mem_map.1 hd
  obtain ⟨hook, hhook, hanchors⟩ := exists_anchors_of_mem_run h hd'
  exact hanchors.reaches (Tree.within_of_mem_dispatch h.ordered hhook)

/-- **Programs that agree below the root have the same diagnostics.** -/
theorem lint_congr {q : Program} (hp : p.Valid) (hq : q.Valid) (htypes : q.types = p.types)
    (htree : p.tree.AgreesBelow q.tree) : config.lint q = config.lint p := by
  have hserves : (Access.strict p).Serves q :=
    { valid := hq
      root := htree.root.symm
      typeIds := by rw [htypes]; rfl
      node := fun hid hn => by
        change p.tree.get? _ = _
        rw [← htree.get? (htree.reaches hid), hn]
        rfl
      type := fun ht => by
        change p.types.get? _ = _
        rw [← htypes, ht]
        rfl
      descend := fun hlt => dif_pos hlt }
  have hsome : some (config.lint q) = some (config.lint p) :=
    (hserves.lint_eq config).symm.trans ((Access.strict_serves hp).lint_eq config)
  exact Option.some.inj hsome

/-- **A run calls the rules at the hooks of the unfolding of the tree, parents first, and gives what
they answer.**  Every node below the root is met, once if nothing is shared; the diagnostics are on
such nodes and depend on no others. -/
theorem dispatches_preorder (h : p.validate = .ok ()) :
    (∀ (rules : List Rule) (shape : ResultShape), Rule.run rules ⟨p, shape⟩ =
      (Check.answers ((Rule.calls rules p.tree).map fun call => call.1.check ⟨p, shape⟩ call.2)
        []).flatten) ∧
    (∀ n, p.tree.preorder n = n :: (p.tree.children n).flatMap p.tree.preorder) ∧
    (∀ n, n ∈ p.tree.preorder p.tree.root ↔ p.tree.Reaches p.tree.root n) ∧
    (p.tree.Unshared p.tree.root → ∀ n, p.tree.Reaches p.tree.root n →
      (p.tree.preorder p.tree.root).count n = 1) ∧
    ∀ config : Config,
      (∀ d ∈ config.lint p, p.tree.Reaches p.tree.root d.node) ∧
      ∀ q : Program, q.validate = .ok () → q.types = p.types → p.tree.AgreesBelow q.tree →
        config.lint q = config.lint p := by
  have hp : p.Valid := Program.validate_eq_ok_iff.1 h
  refine ⟨fun rules shape => ?_, Tree.preorder_eq hp.ordered, fun n => ?_, fun hu n hn => ?_,
    fun config => ⟨fun d hd => reaches_of_mem_lint hp hd, fun q hq htypes htree => ?_⟩⟩
  · exact Rule.run_eq_answers (c := ⟨p, shape⟩) hp.ordered hp.root
  · exact Tree.mem_preorder_iff hp.ordered
  · exact Tree.count_preorder hp.ordered hu hn
  · exact lint_congr hp (Program.validate_eq_ok_iff.1 hq) htypes htree

/-- The program with another statement in the place that nothing leads to. -/
def changedProgram : Program :=
  { Access.recursiveProgram with
    tree := ⟨Access.recursiveProgram.tree.nodes.setIfInBounds 6
      { kind := .returnStatement none, span := ⟨3, 9, 1, 4⟩ }, ⟨10⟩⟩ }

theorem preorder_recursiveProgram :
    Access.recursiveProgram.tree.preorder ⟨10⟩ =
      [⟨10⟩, ⟨2⟩, ⟨1⟩, ⟨0⟩, ⟨5⟩, ⟨4⟩, ⟨3⟩, ⟨9⟩, ⟨7⟩, ⟨8⟩] := by
  cbv

theorem changedProgram_agrees :
    Access.recursiveProgram.tree.AgreesBelow changedProgram.tree where
  root := rfl
  get? := by
    intro id hid
    have hvalid : Access.recursiveProgram.Valid := Program.validate_eq_ok_iff.1 rfl
    have hmem := (Tree.mem_preorder_iff hvalid.ordered).2 hid
    rw [show Access.recursiveProgram.tree.root = ⟨10⟩ from rfl, preorder_recursiveProgram] at hmem
    have hne : 6 ≠ id.index := by
      intro h
      have hid : id = ⟨6⟩ := congrArg NodeId.mk h.symm
      rw [hid] at hmem
      exact absurd hmem (by decide)
    exact Array.getElem?_setIfInBounds_ne hne

/-- Only the statement that nothing leads to is not met, and it can be changed. -/
theorem dispatches_recursive :
    Access.recursiveProgram.validate = .ok () ∧
    Access.recursiveProgram.tree.Unshared ⟨10⟩ ∧
    changedProgram.validate = .ok () ∧
    changedProgram ≠ Access.recursiveProgram ∧
    (Access.recursiveProgram.tree.preorder ⟨10⟩).count ⟨7⟩ = 1 ∧
    ∀ config : Config, config.lint changedProgram = config.lint Access.recursiveProgram := by
  have hvalid : Access.recursiveProgram.validate = .ok () := rfl
  have hordered := (Program.validate_eq_ok_iff.1 hvalid).ordered
  obtain ⟨-, -, hmem, hcount, hlint⟩ := dispatches_preorder hvalid
  have hu : Access.recursiveProgram.tree.Unshared ⟨10⟩ := by
    apply Tree.unshared_of_nodup hordered
    rw [preorder_recursiveProgram]
    decide
  have hseven : Access.recursiveProgram.tree.Reaches ⟨10⟩ ⟨7⟩ := by
    refine (hmem ⟨7⟩).1 ?_
    rw [show Access.recursiveProgram.tree.root = ⟨10⟩ from rfl, preorder_recursiveProgram]
    decide
  exact ⟨hvalid, hu, rfl, by decide, hcount hu ⟨7⟩ hseven,
    fun config => (hlint config).2 changedProgram rfl rfl changedProgram_agrees⟩

end Config

end ResultLint
