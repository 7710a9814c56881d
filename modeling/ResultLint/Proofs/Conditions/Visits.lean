import ResultLint.Proofs.Conditions.Reports

/-!
# Which nodes are looked at as conditions

A condition is found from above: from the node that tests it, from the logical expression around it,
or from the visit of a logical expression itself.  Whichever comes first decides whether the operands
are looked at as in a test, so what is looked at seems to depend on the order of the visit.  In a tree
it does not: a node has one place, the nodes above it are visited before it, and so a logical
expression in a test is first looked at from that test.

* `InTest`, `Condition`: the conditions of a tree, said without a visit.
* `extends_checkConditionWithin`: what one check of a condition looks at.
* `extends_hooks`, `extends_checksBelow`: what is looked at from a node, and from all below it.
* `Examined.mem_visits`: **where every node is attended to, all conditions have been looked at.**
-/

namespace ResultLint

/-- The part of a node whose value is only tested. -/
def NodeKind.test? : NodeKind → Option NodeId
  | ifElse test _ _ => some test
  | whileLoop test _ => some test
  | doWhileLoop _ test => some test
  | forLoop _ test _ _ => test
  | conditional test _ _ => some test
  | unary .not argument => some argument
  | _ => none

theorem NodeKind.mentions_test {kind : NodeKind} {n : NodeId} (h : kind.test? = some n) :
    kind.Mentions n := by
  unfold test? at h
  split at h
  · cases h; exact .ifTest _ _ _
  · cases h; exact .whileTest _ _
  · cases h; exact .doWhileTest _ _
  · cases h; exact .forTest _ _ _ _
  · cases h; exact .conditionalTest _ _ _
  · cases h; exact .unaryArgument _ _
  · cases h

namespace Tree

variable {t : Tree}

/-! ## Conditions -/

/-- The node is tested by a node below the root, or is an operand of a logical expression in a
test. -/
inductive InTest (t : Tree) : NodeId → Prop
  | test {id n : NodeId} {kind : NodeKind} (hid : t.Reaches t.root id)
      (hk : t.kind? id = some kind) (hn : kind.test? = some n) : InTest t n
  | left {id left right : NodeId} {operator : LogicalOp} (hid : InTest t id)
      (hk : t.kind? id = some (.logical operator left right)) : InTest t left
  | right {id left right : NodeId} {operator : LogicalOp} (hid : InTest t id)
      (hk : t.kind? id = some (.logical operator left right)) : InTest t right

/-- The node stands in a test, or is the left operand of `&&` or `||` below the root. -/
inductive Condition (t : Tree) (n : NodeId) : Prop
  | inTest (h : t.InTest n)
  | operand {id right : NodeId} {operator : LogicalOp} (hid : t.Reaches t.root id)
      (hk : t.kind? id = some (.logical operator n right)) (ho : operator ≠ .nullish)

/-- The parts that the nodes of a tree list, of all nodes together. -/
def listedParts (t : Tree) : List NodeId := t.nodes.toList.flatMap (·.kind.children)

theorem InTest.reaches {n : NodeId} (h : t.InTest n) : t.Reaches t.root n := by
  induction h with
  | test hid hk hn => exact hid.part hk (NodeKind.mentions_test hn)
  | left _ hk ih => exact ih.part hk (.logicalLeft _ _ _)
  | right _ hk ih => exact ih.part hk (.logicalRight _ _ _)

theorem Condition.reaches {n : NodeId} (h : t.Condition n) : t.Reaches t.root n := by
  cases h with
  | inTest h => exact h.reaches
  | operand hid hk _ => exact hid.part hk (.logicalLeft _ _ _)

/-- **If nothing is shared, a node stands in a test because of the node right above it.** -/
theorem InTest.of_child (hu : t.Unshared t.root) {id n : NodeId} (hid : t.Reaches t.root id)
    (hn : t.Child id n) (h : t.InTest n) :
    (∃ kind, t.kind? id = some kind ∧ kind.test? = some n) ∨
      t.InTest id ∧ ∃ operator left right, t.kind? id = some (.logical operator left right) ∧
        (n = left ∨ n = right) := by
  cases h with
  | @test id' _ kind hid' hk ht =>
    have heq : id' = id :=
      hu.unique hid' hid (child_of_kind? hk (NodeKind.mentions_test ht)) hn
    subst heq
    exact Or.inl ⟨kind, hk, ht⟩
  | @left id' _ right operator hid' hk =>
    have heq : id' = id :=
      hu.unique hid'.reaches hid (child_of_kind? hk (.logicalLeft _ _ _)) hn
    subst heq
    exact Or.inr ⟨hid', operator, n, right, hk, Or.inl rfl⟩
  | @right id' left _ operator hid' hk =>
    have heq : id' = id :=
      hu.unique hid'.reaches hid (child_of_kind? hk (.logicalRight _ _ _)) hn
    subst heq
    exact Or.inr ⟨hid', operator, left, n, hk, Or.inr rfl⟩

/-- An operand of a logical expression stands in a test only if the expression does. -/
theorem InTest.of_operand (hu : t.Unshared t.root) {id left right n : NodeId}
    {operator : LogicalOp} (hid : t.Reaches t.root id)
    (hk : t.kind? id = some (.logical operator left right)) (hn : t.Child id n)
    (h : t.InTest n) : t.InTest id := by
  rcases h.of_child hu hid hn with ⟨kind, hk', ht⟩ | ⟨hid, _⟩
  · rw [hk] at hk'
    cases hk'
    cases ht
  · exact hid

theorem not_inTest_root (h : t.Ordered) : ¬ t.InTest t.root := by
  have hno : ∀ {id : NodeId}, t.Reaches t.root id → ¬ t.Child id t.root :=
    fun hid hc => h.not_reaches_of_child hc hid
  intro hroot
  generalize hn : t.root = n at hroot
  cases hroot with
  | test hid hk ht =>
    exact hno hid (hn ▸ child_of_kind? hk (NodeKind.mentions_test ht))
  | left hid hk => exact hno hid.reaches (hn ▸ child_of_kind? hk (.logicalLeft _ _ _))
  | right hid hk => exact hno hid.reaches (hn ▸ child_of_kind? hk (.logicalRight _ _ _))

/-- A tree in which no part is listed twice shares nothing. -/
theorem unshared_of_nodup_listedParts (h : t.listedParts.Nodup) (root : NodeId) :
    t.Unshared root := by
  rw [listedParts, List.nodup_flatMap] at h
  obtain ⟨heach, hdisjoint⟩ := h
  have hnode : ∀ {a n : NodeId}, t.Child a n →
      ∃ node, t.nodes.toList[a.index]? = some node ∧ n ∈ node.kind.children := by
    intro a n han
    obtain ⟨kind, hk, hn⟩ := child_iff.1 han
    obtain ⟨node, hget, rfl⟩ := Option.map_eq_some_iff.1 hk
    refine ⟨node, ?_, NodeKind.mem_children_iff.2 hn⟩
    rw [Array.getElem?_toList]
    exact hget
  have hlt : ∀ {a b n : NodeId}, t.Child a n → t.Child b n → ¬ a.index < b.index := by
    intro a b n han hbn hab
    obtain ⟨node, ha, hn⟩ := hnode han
    obtain ⟨node', hb, hn'⟩ := hnode hbn
    obtain ⟨hai, rfl⟩ := List.getElem?_eq_some_iff.1 ha
    obtain ⟨hbi, rfl⟩ := List.getElem?_eq_some_iff.1 hb
    exact List.pairwise_iff_getElem.1 hdisjoint _ _ hai hbi hab hn hn'
  constructor
  · intro a _
    cases hk : t.kind? a with
    | none =>
      rw [children, hk]
      exact List.nodup_nil
    | some kind =>
      obtain ⟨node, hget, rfl⟩ := Option.map_eq_some_iff.1 hk
      rw [children_of_kind? hk]
      exact heach node (Array.mem_toList_iff.2 (Array.mem_of_getElem? hget))
  · intro a b n _ _ han hbn
    have hab := hlt han hbn
    have hba := hlt hbn han
    cases a
    cases b
    simp only [NodeId.mk.injEq]
    simp only at hab hba
    omega

/-! ## What is looked at -/

/-- The nodes that are looked at: conditions, and logical expressions wherever they stand. -/
inductive Examined (t : Tree) (n : NodeId) : Prop
  | condition (h : t.Condition n)
  | logical {left right : NodeId} {operator : LogicalOp} (hn : t.Reaches t.root n)
      (hk : t.kind? n = some (.logical operator left right))

theorem Examined.reaches {n : NodeId} (h : t.Examined n) : t.Reaches t.root n := by
  cases h with
  | condition h => exact h.reaches
  | logical hn _ => exact hn

/-- If the node is a logical expression, those of its operands that are conditions have been looked
at. -/
structure Settled (t : Tree) (visits : Visits) (n : NodeId) : Prop where
  left : ∀ {operator : LogicalOp} {left right : NodeId},
    t.kind? n = some (.logical operator left right) → operator ≠ .nullish ∨ t.InTest n →
    (Misuse.conditionKey, left) ∈ visits
  right : ∀ {operator : LogicalOp} {left right : NodeId},
    t.kind? n = some (.logical operator left right) → t.InTest n →
    (Misuse.conditionKey, right) ∈ visits

/-- More nodes have been looked at: only such as should be, and their operands with them. -/
structure Extends (t : Tree) (before after : Visits) : Prop where
  kept : ∀ {n : NodeId}, (Misuse.conditionKey, n) ∈ before → (Misuse.conditionKey, n) ∈ after
  examined : ∀ {n : NodeId}, (Misuse.conditionKey, n) ∈ after →
    (Misuse.conditionKey, n) ∈ before ∨ t.Examined n
  settled : ∀ {n : NodeId}, (Misuse.conditionKey, n) ∈ after →
    (Misuse.conditionKey, n) ∈ before ∨ t.Settled after n

theorem Settled.mono {before after : Visits} {n : NodeId} (h : t.Settled before n)
    (hsub : ∀ {m : NodeId}, (Misuse.conditionKey, m) ∈ before → (Misuse.conditionKey, m) ∈ after) :
    t.Settled after n where
  left hk ho := hsub (h.left hk ho)
  right hk hin := hsub (h.right hk hin)

namespace Extends

variable {before middle after : Visits}

theorem refl (t : Tree) (visits : Visits) : t.Extends visits visits where
  kept h := h
  examined h := Or.inl h
  settled h := Or.inl h

theorem trans (h : t.Extends before middle) (h' : t.Extends middle after) :
    t.Extends before after where
  kept hn := h'.kept (h.kept hn)
  examined hn := by
    rcases h'.examined hn with hn | hn
    · exact h.examined hn
    · exact Or.inr hn
  settled hn := by
    rcases h'.settled hn with hn | hn
    · exact (h.settled hn).imp_right fun hs => hs.mono h'.kept
    · exact Or.inr hn

/-- A node that is marked first and settled in the end. -/
theorem of_cons {n : NodeId} (h : t.Extends ((Misuse.conditionKey, n) :: before) after)
    (hn : t.Examined n) (hs : t.Settled after n) : t.Extends before after where
  kept hm := h.kept (List.mem_cons_of_mem _ hm)
  examined hm := by
    rcases h.examined hm with hm | hm
    · rcases List.mem_cons.1 hm with heq | hm
      · cases heq
        exact Or.inr hn
      · exact Or.inl hm
    · exact Or.inr hm
  settled hm := by
    rcases h.settled hm with hm | hm
    · rcases List.mem_cons.1 hm with heq | hm
      · cases heq
        exact Or.inr hs
      · exact Or.inl hm
    · exact Or.inr hm

/-- What has been looked at since the beginning is settled. -/
theorem settled_of_nil (h : t.Extends [] after) {n : NodeId}
    (hn : (Misuse.conditionKey, n) ∈ after) : t.Settled after n := by
  rcases h.settled hn with hn | hn
  · exact absurd hn List.not_mem_nil
  · exact hn

end Extends

/-- A check of the condition does what it should: it knows about the test around the node, or the
node has been looked at from there. -/
structure Callable (t : Tree) (visits : Visits) (inTest : Bool) (n : NodeId) : Prop where
  examined : t.Examined n
  inside : inTest = true → t.InTest n
  outside : inTest = false → t.InTest n → (Misuse.conditionKey, n) ∈ visits

end Tree

namespace Misuse

variable {c : Context} {visits : Visits} {node : NodeId}

/-- A check that is made only if it is due. -/
theorem extends_if {check : Check} (on : Bool)
    (h : on = true → c.tree.Extends visits (check.run visits).2 ∧
      (conditionKey, node) ∈ (check.run visits).2) :
    c.tree.Extends visits (if on then check.run visits else ([], visits)).2 ∧
      (on = true →
        (conditionKey, node) ∈ (if on then check.run visits else ([], visits)).2) := by
  cases on with
  | false => exact ⟨.refl _ _, fun hon => absurd hon (by decide)⟩
  | true => exact ⟨(h rfl).1, fun _ => (h rfl).2⟩

/-- **What one check of a condition looks at.** -/
theorem extends_checkConditionWithin (h : c.tree.Ordered) (hu : c.tree.Unshared c.tree.root)
    {depth : Nat} {inTest : Bool} (hdepth : node.index < depth)
    (hcall : c.tree.Callable visits inTest node) :
    c.tree.Extends visits ((checkConditionWithin c depth inTest node).run visits).2 ∧
      (conditionKey, node) ∈ ((checkConditionWithin c depth inTest node).run visits).2 := by
  induction depth generalizing inTest node visits with
  | zero => omega
  | succ depth ih =>
    rw [checkConditionWithin_run]
    by_cases hv : (conditionKey, node) ∈ visits
    · rw [if_pos hv]
      exact ⟨.refl _ _, hv⟩
    · rw [if_neg hv]
      split
      next operator left right hk =>
        have hid := hcall.examined.reaches
        -- had the node stood in a test, it would have been looked at from there
        have houtside : inTest = false → ¬ c.tree.InTest node :=
          fun hfalse hin => hv (hcall.outside hfalse hin)
        have hpart : ∀ {part : NodeId}, c.tree.Child node part → c.tree.Examined part →
            (inTest = true → c.tree.InTest part) → ∀ before : Visits,
            c.tree.Extends before ((checkConditionWithin c depth inTest part).run before).2 ∧
              (conditionKey, part) ∈ ((checkConditionWithin c depth inTest part).run before).2 := by
          intro part hchild hexamined hin before
          have hlt := h.index_lt hchild
          exact ih (by omega) ⟨hexamined, hin, fun hfalse hpart =>
            absurd (hpart.of_operand hu hid hk hchild) (houtside hfalse)⟩
        have hinLeft : inTest = true → c.tree.InTest left := fun hin => .left (hcall.inside hin) hk
        have hinRight : inTest = true → c.tree.InTest right :=
          fun hin => .right (hcall.inside hin) hk
        have hleft : (operator ≠ .nullish || inTest) = true → c.tree.Examined left := by
          intro hon
          rcases Bool.or_eq_true_iff.1 hon with ho | hin
          · exact .condition (.operand hid hk (of_decide_eq_true ho))
          · exact .condition (.inTest (hinLeft hin))
        obtain ⟨hfirst, hmarkedLeft⟩ := extends_if (operator ≠ .nullish || inTest) fun hon =>
          hpart (Tree.child_of_kind? hk (.logicalLeft _ _ _)) (hleft hon) hinLeft
            ((conditionKey, node) :: visits)
        obtain ⟨hsecond, hmarkedRight⟩ := extends_if inTest fun hin =>
          hpart (Tree.child_of_kind? hk (.logicalRight _ _ _)) (.condition (.inTest (hinRight hin)))
            hinRight (if operator ≠ .nullish || inTest then
              (checkConditionWithin c depth inTest left).run ((conditionKey, node) :: visits)
              else ([], (conditionKey, node) :: visits)).2
        have hextends := hfirst.trans hsecond
        refine ⟨hextends.of_cons hcall.examined ⟨?_, ?_⟩, hextends.kept List.mem_cons_self⟩
        · intro operator' left' right' hk' ho
          rw [hk] at hk'
          cases hk'
          refine hsecond.kept (hmarkedLeft ?_)
          cases inTest with
          | true => exact Bool.or_true _
          | false => simpa using ho.resolve_right (houtside rfl)
        · intro operator' left' right' hk' hin
          rw [hk] at hk'
          cases hk'
          cases inTest with
          | true => exact hmarkedRight rfl
          | false => exact absurd hin (houtside rfl)
      next hk =>
        have hsettled : c.tree.Settled ((conditionKey, node) :: visits) node :=
          ⟨fun hk' _ => absurd hk' (hk _ _ _), fun hk' _ => absurd hk' (hk _ _ _)⟩
        exact ⟨(Tree.Extends.refl _ _).of_cons hcall.examined hsettled, List.mem_cons_self⟩

end Misuse

/-! ## One node -/

/-- What the node tests has been looked at, and so has the node itself if it is a logical
expression. -/
structure Tree.Attended (t : Tree) (visits : Visits) (id : NodeId) : Prop where
  test : ∀ {kind : NodeKind} {n : NodeId}, t.kind? id = some kind → kind.test? = some n →
    (Misuse.conditionKey, n) ∈ visits
  logical : ∀ {operator : LogicalOp} {left right : NodeId},
    t.kind? id = some (.logical operator left right) → (Misuse.conditionKey, id) ∈ visits

theorem Tree.Attended.mono {t : Tree} {before after : Visits} {id : NodeId}
    (h : t.Attended before id) (he : t.Extends before after) : t.Attended after id where
  test hk hn := he.kept (h.test hk hn)
  logical hk := he.kept (h.logical hk)

/-- Where no rule is called there is nothing to attend to. -/
theorem Tree.attended_of_hooks_eq_nil {t : Tree} {id : NodeId} (h : t.hooks id = [])
    (visits : Visits) : t.Attended visits id := by
  have hnone : ∀ {kind : NodeKind}, t.kind? id = some kind → kind.hooks id = [] :=
    fun hk => (hooks_of_kind? hk).symm.trans h
  constructor
  · intro kind n hk hn
    have hhooks := hnone hk
    unfold NodeKind.test? at hn
    split at hn <;> first | cases hhooks | cases hn
  · intro operator left right hk
    cases hnone hk

namespace Misuse

variable {c : Context} {checks : MisuseChecks} {id : NodeId} {kind : NodeKind} {visits : Visits}

/-- What has been looked at after the check of a test, if there is one. -/
def afterTest (c : Context) (visits : Visits) (test : Option NodeId) : Visits :=
  test.elim visits fun n => ((checkCondition c true n).run visits).2

theorem checkStatement_visits (hon : checks.conditionals = true) (hk : c.tree.kind? id = some kind)
    (hcategory : kind.category = .statement) :
    ((checkStatement checks c id).run visits).2 = afterTest c visits kind.test? := by
  rw [checkStatement, hk, hon]
  cases kind with
  | forLoop init test update body => cases test <;> rfl
  | returnStatement argument => cases argument <;> rfl
  | conditional test consequent alternate => cases hcategory
  | unary operator argument => cases hcategory
  | _ => rfl

theorem checkExpression_visits (hon : checks.conditionals = true) (hk : c.tree.kind? id = some kind)
    (hcategory : kind.category = .expression) :
    ((checkExpression checks c id).run visits).2 =
      if kind.isLogical then ((checkCondition c false id).run visits).2
      else afterTest c visits kind.test? := by
  rw [checkExpression_run, checkConditions, hk, hon]
  cases kind with
  | unary operator argument => cases operator <;> rfl
  | ifElse test consequent alternate => cases hcategory
  | whileLoop test body => cases hcategory
  | doWhileLoop body test => cases hcategory
  | forLoop init test update body => cases hcategory
  | _ => rfl

variable (h : c.tree.Ordered) (hu : c.tree.Unshared c.tree.root)
  (hroot : c.tree.root.index < c.tree.size) (hid : c.tree.Reaches c.tree.root id)

include h hu hroot

theorem extends_checkCondition {inTest : Bool} {n : NodeId}
    (hcall : c.tree.Callable visits inTest n) :
    c.tree.Extends visits ((checkCondition c inTest n).run visits).2 ∧
      (conditionKey, n) ∈ ((checkCondition c inTest n).run visits).2 := by
  have hle := h.index_le_of_reaches hcall.examined.reaches
  exact extends_checkConditionWithin h hu (by omega) hcall

include hid

/-- The test of a node is looked at as such. -/
theorem extends_afterTest (hk : c.tree.kind? id = some kind) (visits : Visits) :
    c.tree.Extends visits (afterTest c visits kind.test?) ∧
      ∀ {n : NodeId}, kind.test? = some n →
        (conditionKey, n) ∈ afterTest c visits kind.test? := by
  cases ht : kind.test? with
  | none => exact ⟨.refl _ _, (nomatch ·)⟩
  | some test =>
    have hin : c.tree.InTest test := .test hid hk ht
    have hcall : c.tree.Callable visits true test :=
      ⟨.condition (.inTest hin), fun _ => hin, (nomatch ·)⟩
    obtain ⟨hextends, hmarked⟩ := extends_checkCondition h hu hroot hcall
    refine ⟨hextends, fun hn => ?_⟩
    cases hn
    exact hmarked

/-- **A statement is attended to when it is checked.** -/
theorem extends_checkStatement (hon : checks.conditionals = true) (hk : c.tree.kind? id = some kind)
    (hcategory : kind.category = .statement) :
    c.tree.Extends visits ((checkStatement checks c id).run visits).2 ∧
      c.tree.Attended ((checkStatement checks c id).run visits).2 id := by
  rw [checkStatement_visits hon hk hcategory]
  obtain ⟨hextends, htest⟩ := extends_afterTest h hu hroot hid hk visits
  refine ⟨hextends, fun hk' hn => ?_, fun hk' => ?_⟩
  · rw [hk] at hk'
    cases hk'
    exact htest hn
  · rw [hk] at hk'
    cases hk'
    cases hcategory

/-- **An expression is attended to when it is checked**, if it was looked at before in case it stands
in a test. -/
theorem extends_checkExpression (hon : checks.conditionals = true)
    (hk : c.tree.kind? id = some kind) (hcategory : kind.category = .expression)
    (hin : c.tree.InTest id → (conditionKey, id) ∈ visits) :
    c.tree.Extends visits ((checkExpression checks c id).run visits).2 ∧
      c.tree.Attended ((checkExpression checks c id).run visits).2 id := by
  rw [checkExpression_visits hon hk hcategory]
  split
  next hlogical =>
    cases kind with
    | logical operator left right =>
      have hcall : c.tree.Callable visits false id :=
        ⟨.logical hid hk, (nomatch ·), fun _ => hin⟩
      obtain ⟨hextends, hmarked⟩ := extends_checkCondition h hu hroot hcall
      refine ⟨hextends, fun hk' hn => ?_, fun _ => hmarked⟩
      rw [hk] at hk'
      cases hk'
      cases hn
    | _ => cases hlogical
  next hlogical =>
    obtain ⟨hextends, htest⟩ := extends_afterTest h hu hroot hid hk visits
    refine ⟨hextends, fun hk' hn => ?_, fun hk' => ?_⟩
    · rw [hk] at hk'
      cases hk'
      exact htest hn
    · rw [hk] at hk'
      cases hk'
      exact absurd rfl hlogical

end Misuse

/-! ## All nodes -/

/-- Checks that each extend what has been looked at do so one after another. -/
theorem Log.extends_addAll {t : Tree} {P : Visits → Prop}
    (hP : ∀ {before after : Visits}, P before → t.Extends before after → P after)
    {checks : List Check}
    (h : ∀ check ∈ checks, ∀ visits, P visits → t.Extends visits (check.run visits).2) (log : Log)
    (hlog : P log.visits) : t.Extends log.visits (log.addAll checks).visits := by
  induction checks generalizing log with
  | nil => exact .refl _ _
  | cons check rest ih =>
    have hfirst : t.Extends log.visits (log.add check).visits :=
      h check List.mem_cons_self log.visits hlog
    rw [addAll_cons]
    exact hfirst.trans (ih (fun x hx => h x (List.mem_cons_of_mem check hx)) _ (hP hlog hfirst))

/-- What one visit after another extends and attends to. -/
theorem Log.extends_flatMap {t : Tree} {nodes : List NodeId} (checks : NodeId → List Check)
    (hnodes : ∀ n ∈ nodes, ∀ log : Log, t.Extends [] log.visits →
      (t.InTest n → (Misuse.conditionKey, n) ∈ log.visits) →
      t.Extends log.visits (log.addAll (checks n)).visits ∧
        ∀ m, t.Reaches n m → t.Attended (log.addAll (checks n)).visits m)
    (log : Log) (hlog : t.Extends [] log.visits)
    (hin : ∀ n ∈ nodes, t.InTest n → (Misuse.conditionKey, n) ∈ log.visits) :
    t.Extends log.visits (log.addAll (nodes.flatMap checks)).visits ∧
      ∀ n ∈ nodes, ∀ m, t.Reaches n m →
        t.Attended (log.addAll (nodes.flatMap checks)).visits m := by
  induction nodes generalizing log with
  | nil => exact ⟨.refl _ _, fun n hn => absurd hn List.not_mem_nil⟩
  | cons n nodes ih =>
    rw [List.flatMap_cons, Log.addAll_append]
    obtain ⟨hfirst, hattended⟩ :=
      hnodes n List.mem_cons_self log hlog (hin n List.mem_cons_self)
    obtain ⟨hrest, hothers⟩ := ih (fun m hm => hnodes m (List.mem_cons_of_mem n hm)) _
      (hlog.trans hfirst) fun m hm hm' => hfirst.kept (hin m (List.mem_cons_of_mem n hm) hm')
    refine ⟨hfirst.trans hrest, fun m hm => ?_⟩
    rcases List.mem_cons.1 hm with rfl | hm
    · exact fun k hk => (hattended k hk).mono hrest
    · exact hothers m hm

namespace Rule

variable {c : Context} {config : Config} {id : NodeId}

theorem floating_visits (c : Context) (hook : Hook) (visits : Visits) :
    ((Rule.floating.check c hook).run visits).2 = visits := by
  cases hook <;> rfl

variable (h : c.tree.Ordered) (hu : c.tree.Unshared c.tree.root)
  (hroot : c.tree.root.index < c.tree.size) (hon : config.misuse.conditionals = true)

include h hu hroot hon

/-- Every rule extends what has been looked at, at every hook of a node. -/
theorem extends_check {r : Rule} (hr : r ∈ config.rules) (hid : c.tree.Reaches c.tree.root id)
    {hook : Hook} (hhook : hook ∈ c.tree.hooks id) {visits : Visits}
    (hin : c.tree.InTest id → (Misuse.conditionKey, id) ∈ visits) :
    c.tree.Extends visits ((r.check c hook).run visits).2 := by
  rcases mem_rules_iff.1 hr with rfl | rfl
  · rw [floating_visits]
    exact .refl _ _
  · cases Tree.hookOf_of_mem_hooks hhook with
    | statement hk hcategory =>
      exact (Misuse.extends_checkStatement h hu hroot hid hon hk hcategory).1
    | expression hk hcategory =>
      exact (Misuse.extends_checkExpression h hu hroot hid hon hk hcategory hin).1
    | classMember _ _ _ => exact .refl _ _

/-- The rule on misuse attends to a statement or expression at its hook. -/
theorem attended_of_misuse (hid : c.tree.Reaches c.tree.root id) {hook : Hook}
    (hhook : hook ∈ (c.tree.hooks id).head?) {visits : Visits}
    (hin : c.tree.InTest id → (Misuse.conditionKey, id) ∈ visits) :
    c.tree.Attended (((Rule.misuse config.misuse).check c hook).run visits).2 id := by
  cases hk : c.tree.kind? id with
  | none =>
    rw [Tree.hooks, hk] at hhook
    cases hhook
  | some kind =>
    rw [Tree.hooks_of_kind? hk, NodeKind.hooks] at hhook
    cases hcategory : kind.category with
    | statement =>
      rw [hcategory] at hhook
      cases hhook
      exact (Misuse.extends_checkStatement h hu hroot hid hon hk hcategory).2
    | expression =>
      rw [hcategory] at hhook
      cases hhook
      exact (Misuse.extends_checkExpression h hu hroot hid hon hk hcategory hin).2
    | other =>
      rw [hcategory] at hhook
      cases hhook

/-- **The rules attend to a node at its hooks**, if it was looked at before in case it stands in a
test. -/
theorem extends_hooks (hactive : Rule.misuse config.misuse ∈ config.activeRules)
    (hid : c.tree.Reaches c.tree.root id) (log : Log)
    (hin : c.tree.InTest id → (Misuse.conditionKey, id) ∈ log.visits) :
    c.tree.Extends log.visits
        (log.addAll ((c.tree.hooks id).flatMap (checksAt config.activeRules c))).visits ∧
      c.tree.Attended
        (log.addAll ((c.tree.hooks id).flatMap (checksAt config.activeRules c))).visits id := by
  let P : Visits → Prop := fun visits => c.tree.InTest id → (Misuse.conditionKey, id) ∈ visits
  have hP : ∀ {before after : Visits}, P before → c.tree.Extends before after → P after :=
    fun hbefore he hin => he.kept (hbefore hin)
  have hextends : ∀ check ∈ (c.tree.hooks id).flatMap (checksAt config.activeRules c), ∀ visits,
      P visits → c.tree.Extends visits (check.run visits).2 := by
    intro check hcheck visits hvisits
    obtain ⟨hook, hhook, hcheck⟩ := List.mem_flatMap.1 hcheck
    obtain ⟨r, hr, rfl⟩ := List.mem_map.1 hcheck
    exact extends_check h hu hroot hon (List.mem_of_mem_filter hr) hid hhook hvisits
  refine ⟨Log.extends_addAll hP hextends log hin, ?_⟩
  cases hhead : (c.tree.hooks id).head? with
  | none => exact Tree.attended_of_hooks_eq_nil (List.head?_eq_none_iff.1 hhead) _
  | some hook =>
    -- the check of the rule on misuse at the first hook, and what is added before and after it
    have hmem : (Rule.misuse config.misuse).check c hook ∈
        (c.tree.hooks id).flatMap (checksAt config.activeRules c) :=
      List.mem_flatMap.2 ⟨hook, List.mem_of_head? hhead, List.mem_map.2 ⟨_, hactive, rfl⟩⟩
    obtain ⟨first, rest, heq⟩ := List.append_of_mem hmem
    rw [heq] at hextends ⊢
    rw [Log.addAll_append, Log.addAll_cons]
    have hbefore := Log.extends_addAll hP
      (fun x hx => hextends x (List.mem_append_left _ hx)) log hin
    have hthen := hP hin hbefore
    have hattended := attended_of_misuse h hu hroot hon hid hhead hthen
    have hcheck : P ((log.addAll first).add ((Rule.misuse config.misuse).check c hook)).visits :=
      hP hthen (hextends _ (List.mem_append_right _ List.mem_cons_self) _ hthen)
    have hafter := Log.extends_addAll hP (fun x hx => hextends x
      (List.mem_append_right _ (List.mem_cons_of_mem _ hx))) _ hcheck
    exact Tree.Attended.mono hattended hafter

/-- **The visit of a node attends to the node and all below it.** -/
theorem extends_checksBelow (hactive : Rule.misuse config.misuse ∈ config.activeRules)
    (id : NodeId) (hid : c.tree.Reaches c.tree.root id) (log : Log)
    (hlog : c.tree.Extends [] log.visits)
    (hin : c.tree.InTest id → (Misuse.conditionKey, id) ∈ log.visits) :
    c.tree.Extends log.visits (log.addAll (checksBelow config.activeRules c id)).visits ∧
      ∀ n, c.tree.Reaches id n →
        c.tree.Attended (log.addAll (checksBelow config.activeRules c id)).visits n := by
  induction id using h.induction generalizing log with
  | step id ih =>
    rw [checksBelow_eq h, Log.addAll_append]
    obtain ⟨hself, hattended⟩ := extends_hooks h hu hroot hon hactive hid log hin
    have hafter := hlog.trans hself
    -- a part in a test has been looked at by now: from the node, or with the node
    have hparts : ∀ n ∈ c.tree.children id, c.tree.InTest n → (Misuse.conditionKey, n) ∈
        (log.addAll ((c.tree.hooks id).flatMap (checksAt config.activeRules c))).visits := by
      intro n hn hinn
      rcases hinn.of_child hu hid hn with ⟨kind, hk, ht⟩ | ⟨hinid, operator, left, right, hk, hn⟩
      · exact hattended.test hk ht
      · have hsettled := hafter.settled_of_nil (hattended.logical hk)
        rcases hn with rfl | rfl
        · exact hsettled.left hk (Or.inr hinid)
        · exact hsettled.right hk hinid
    obtain ⟨hrest, hbelow⟩ := Log.extends_flatMap (checksBelow config.activeRules c)
      (fun n hn log hlog hin => ih n hn (hid.tail hn) log hlog hin) _ hafter hparts
    refine ⟨hself.trans hrest, fun n hn => ?_⟩
    rcases hn.cases_head with rfl | ⟨part, hpart, hn⟩
    · exact hattended.mono hrest
    · exact hbelow part hpart n hn

end Rule

/-- **Where every node is attended to, all conditions have been looked at.** -/
theorem Tree.Examined.mem_visits {t : Tree} {visits : Visits} (he : t.Extends [] visits)
    (hattended : ∀ n, t.Reaches t.root n → t.Attended visits n) {n : NodeId} (hn : t.Examined n) :
    (Misuse.conditionKey, n) ∈ visits := by
  have hin : ∀ {n : NodeId}, t.InTest n → (Misuse.conditionKey, n) ∈ visits := by
    intro n hn
    induction hn with
    | test hid hk ht => exact (hattended _ hid).test hk ht
    | left hid hk ih => exact (he.settled_of_nil ih).left hk (Or.inr hid)
    | right hid hk ih => exact (he.settled_of_nil ih).right hk hid
  cases hn with
  | condition hn =>
    cases hn with
    | inTest hn => exact hin hn
    | operand hid hk ho =>
      exact (he.settled_of_nil ((hattended _ hid).logical hk)).left hk (Or.inl ho)
  | logical hn hk => exact (hattended _ hn).logical hk

end ResultLint
