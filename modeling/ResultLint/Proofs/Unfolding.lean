import Mathlib.Data.List.Nodup
import Mathlib.Data.List.Pairwise
import Mathlib.Logic.Relation
import ResultLint.Proofs.Validity

/-!
# The unfolding of a tree

In an ordered tree the parts of a node have smaller numbers than the node.  Nothing keeps two nodes
from having a part in common, so the tree is a graph without cycles, and a walk through it goes
through its unfolding: every node in front of its parts, a shared part once for each place where it
stands.

* `Ordered.induction`: what passes from the parts of a node to the node holds of every node.
* `preorder_eq`, `mem_preorder_iff`: the unfolding of a node, and that it holds what is reached.
* `nodup_preorder`, `unshared_of_nodup`: **no part is shared exactly if every node is met once.**
-/

namespace ResultLint

open Relation (ReflTransGen)

namespace Tree

variable {t : Tree}

/-- The parts of a node; a missing node has none. -/
def children (t : Tree) (id : NodeId) : List NodeId := ((t.kind? id).map (·.children)).getD []

def Child (t : Tree) (a b : NodeId) : Prop := b ∈ t.children a

def Reaches (t : Tree) : NodeId → NodeId → Prop := ReflTransGen t.Child

/-- Parts come before the whole. -/
structure Ordered (t : Tree) : Prop where
  index_lt : ∀ {a b : NodeId}, t.Child a b → b.index < a.index

theorem children_of_kind? {id : NodeId} {kind : NodeKind} (h : t.kind? id = some kind) :
    t.children id = kind.children := by
  rw [children, h]
  rfl

theorem child_iff {a b : NodeId} :
    t.Child a b ↔ ∃ kind, t.kind? a = some kind ∧ kind.Mentions b := by
  unfold Child children
  cases h : t.kind? a with
  | none => simp
  | some kind => simp [NodeKind.mem_children_iff]

theorem child_of_kind? {a b : NodeId} {kind : NodeKind} (h : t.kind? a = some kind)
    (hb : kind.Mentions b) : t.Child a b :=
  child_iff.2 ⟨kind, h, hb⟩

/-- What is mentioned in a node that is reached is reached. -/
theorem Reaches.part {root id n : NodeId} {kind : NodeKind} (h : t.Reaches root id)
    (hk : t.kind? id = some kind) (hn : kind.Mentions n) : t.Reaches root n :=
  h.tail (child_of_kind? hk hn)

namespace Ordered

/-- **What passes from the parts of a node to the node holds of every node.** -/
theorem induction (h : t.Ordered) {P : NodeId → Prop}
    (step : ∀ id, (∀ c, t.Child id c → P c) → P id) (id : NodeId) : P id := by
  have hall : ∀ n (id : NodeId), id.index < n → P id := by
    intro n
    induction n with
    | zero =>
      intro id hid
      omega
    | succ n ih =>
      intro id hid
      apply step
      intro c hc
      have hlt := h.index_lt hc
      exact ih c (by omega)
  exact hall (id.index + 1) id (by omega)

theorem index_le_of_reaches (h : t.Ordered) {a b : NodeId} (hab : t.Reaches a b) :
    b.index ≤ a.index := by
  induction hab with
  | refl => exact Nat.le_refl _
  | tail _ hbc ih =>
    have hlt := h.index_lt hbc
    omega

/-- Nothing leads from a part back to the whole. -/
theorem not_reaches_of_child (h : t.Ordered) {a b : NodeId} (hab : t.Child a b) :
    ¬ t.Reaches b a := by
  intro hba
  have hle := h.index_le_of_reaches hba
  have hlt := h.index_lt hab
  omega

end Ordered

/-! ## Parents first -/

/-- The unfolding of a node in source order, every node in front of its parts. -/
def preorder (t : Tree) (id : NodeId) : List NodeId :=
  id :: (t.children id).flatMap fun c => if c.index < id.index then preorder t c else []
termination_by id.index

theorem preorder_eq (h : t.Ordered) (id : NodeId) :
    t.preorder id = id :: (t.children id).flatMap t.preorder := by
  have hc : ∀ c ∈ t.children id,
      (if c.index < id.index then t.preorder c else []) = t.preorder c := by
    intro c hc
    rw [if_pos (h.index_lt hc)]
  rw [preorder, List.flatMap_congr hc]

/-- The unfolding depends on the parts only. -/
theorem preorder_congr {u : Tree} (h : t.Ordered) (hu : u.Ordered)
    (hc : ∀ n, u.children n = t.children n) (id : NodeId) : u.preorder id = t.preorder id := by
  induction id using h.induction with
  | step id ih =>
    rw [preorder_eq h, preorder_eq hu, hc]
    exact congrArg (id :: ·) (List.flatMap_congr ih)

/-- **The unfolding of a node holds the nodes that are reached from it.** -/
theorem mem_preorder_iff (h : t.Ordered) {id n : NodeId} :
    n ∈ t.preorder id ↔ t.Reaches id n := by
  induction id using h.induction with
  | step id ih =>
    rw [preorder_eq h, List.mem_cons, List.mem_flatMap]
    constructor
    · rintro (rfl | ⟨c, hc, hn⟩)
      · exact .refl
      · exact .head hc ((ih c hc).1 hn)
    · intro hn
      rcases hn.cases_head with rfl | ⟨c, hc, hcn⟩
      · exact Or.inl rfl
      · exact Or.inr ⟨c, hc, (ih c hc).2 hcn⟩

/-! ## Trees that share nothing -/

/-- Among the nodes that are reached, none lists a part twice and no two list the same part. -/
structure Unshared (t : Tree) (root : NodeId) : Prop where
  nodup : ∀ {a : NodeId}, t.Reaches root a → (t.children a).Nodup
  unique : ∀ {a b n : NodeId}, t.Reaches root a → t.Reaches root b → t.Child a n → t.Child b n →
    a = b

namespace Unshared

variable {root : NodeId}

theorem of_reaches (hu : t.Unshared root) {a : NodeId} (ha : t.Reaches root a) :
    t.Unshared a where
  nodup hb := hu.nodup (ha.trans hb)
  unique hb hc := hu.unique (ha.trans hb) (ha.trans hc)

/-- Of two nodes above a third, one is above the other. -/
theorem reaches_or_reaches (hu : t.Unshared root) {a b n : NodeId} (ha : t.Reaches root a)
    (hb : t.Reaches root b) (han : t.Reaches a n) (hbn : t.Reaches b n) :
    t.Reaches a b ∨ t.Reaches b a := by
  induction han with
  | refl => exact Or.inr hbn
  | @tail m n ham hmn ih =>
    rcases hbn.cases_tail with rfl | ⟨m', hbm, hmn'⟩
    · exact Or.inl (ham.tail hmn)
    · have hm : m = m' := hu.unique (ha.trans ham) (hb.trans hbm) hmn hmn'
      subst hm
      exact ih hbm

/-- What is below one part of a node is not below another. -/
theorem eq_of_reaches (hu : t.Unshared root) (h : t.Ordered) {c d n : NodeId}
    (hc : t.Child root c) (hd : t.Child root d) (hcn : t.Reaches c n) (hdn : t.Reaches d n) :
    c = d := by
  -- a node between two parts of `root` would have the lower of them as a part, as `root` has
  have hno : ∀ {c d : NodeId}, t.Child root c → t.Child root d → t.Reaches c d → c = d := by
    intro c d hc hd hcd
    rcases hcd.cases_tail with rfl | ⟨m, hcm, hmd⟩
    · rfl
    · have hm : m = root := hu.unique (.head hc hcm) .refl hmd hd
      subst hm
      exact absurd hcm (h.not_reaches_of_child hc)
  rcases hu.reaches_or_reaches (.single hc) (.single hd) hcn hdn with hcd | hdc
  · exact hno hc hd hcd
  · exact (hno hd hc hdc).symm

end Unshared

/-- **If no part is shared, every node is met once.** -/
theorem nodup_preorder (h : t.Ordered) {root : NodeId} (hu : t.Unshared root) :
    (t.preorder root).Nodup := by
  induction root using h.induction with
  | step id ih =>
    rw [preorder_eq h, List.nodup_cons, List.nodup_flatMap]
    refine ⟨?_, ?_, ?_⟩
    · intro hid
      obtain ⟨c, hc, hcid⟩ := List.mem_flatMap.1 hid
      exact h.not_reaches_of_child hc ((mem_preorder_iff h).1 hcid)
    · intro c hc
      exact ih c hc (hu.of_reaches (.single hc))
    · refine (hu.nodup .refl).imp_of_mem ?_
      intro c d hc hd hne n hcn hdn
      exact hne (hu.eq_of_reaches h hc hd ((mem_preorder_iff h).1 hcn)
        ((mem_preorder_iff h).1 hdn))

/-- **If every node is met once, no part is shared.** -/
theorem unshared_of_nodup (h : t.Ordered) {root : NodeId} (hroot : (t.preorder root).Nodup) :
    t.Unshared root := by
  induction root using h.induction with
  | step id ih =>
    rw [preorder_eq h, List.nodup_cons, List.nodup_flatMap] at hroot
    obtain ⟨-, heach, hdisjoint⟩ := hroot
    have hself : ∀ c, c ∈ t.preorder c := fun c => (mem_preorder_iff h).2 .refl
    have hnodup : (t.children id).Nodup := by
      refine hdisjoint.imp ?_
      rintro c d hcd rfl
      exact hcd (hself c) (hself c)
    have heq : ∀ {c d n : NodeId}, t.Child id c → t.Child id d → t.Reaches c n → t.Reaches d n →
        c = d := by
      intro c d n hc hd hcn hdn
      by_contra hne
      have : Std.Symm (Function.onFun List.Disjoint t.preorder) := ⟨fun _ _ hcd _ hc hd => hcd hd hc⟩
      exact hdisjoint.forall hc hd hne ((mem_preorder_iff h).2 hcn) ((mem_preorder_iff h).2 hdn)
    -- a part of `id` is no part of anything below `id`
    have hno : ∀ {c d a : NodeId}, t.Child id c → t.Child id d → t.Reaches d a → ¬ t.Child a c := by
      intro c d a hc hd hda hac
      have hcd : c = d := heq hc hd .refl (hda.tail hac)
      subst hcd
      exact h.not_reaches_of_child hac hda
    constructor
    · intro a ha
      rcases ha.cases_head with rfl | ⟨c, hc, hca⟩
      · exact hnodup
      · exact (ih c hc (heach c hc)).nodup hca
    · intro a b n ha hb han hbn
      rcases ha.cases_head with rfl | ⟨c, hc, hca⟩
      · rcases hb.cases_head with rfl | ⟨d, hd, hdb⟩
        · rfl
        · exact absurd hbn (hno han hd hdb)
      · rcases hb.cases_head with rfl | ⟨d, hd, hdb⟩
        · exact absurd han (hno hbn hc hca)
        · have hcd : c = d := heq hc hd (hca.tail han) (hdb.tail hbn)
          subst hcd
          exact (ih c hc (heach c hc)).unique hca hdb han hbn

/-! ## Another node in its place -/

def modify (t : Tree) (n : NodeId) (f : Node → Node) : Tree :=
  { t with nodes := t.nodes.modify n.index f }

theorem get?_modify (t : Tree) (n : NodeId) (f : Node → Node) (id : NodeId) :
    (t.modify n f).get? id = if n = id then (t.get? id).map f else t.get? id := by
  have hindex : n.index = id.index ↔ n = id := by
    cases n
    cases id
    simp
  refine Array.getElem?_modify.trans ?_
  simp only [get?, hindex]

theorem size_modify (t : Tree) (n : NodeId) (f : Node → Node) : (t.modify n f).size = t.size :=
  Array.size_modify

end Tree

namespace Program.Valid

variable {p : Program}

theorem ordered (h : p.Valid) : p.tree.Ordered := by
  constructor
  intro a b hab
  obtain ⟨kind, hk, hm⟩ := Tree.child_iff.1 hab
  obtain ⟨node, hn, rfl⟩ := Option.map_eq_some_iff.1 hk
  exact h.child hn hm

/-- Everything below a node of the tree is a node of the tree. -/
theorem exists_get?_of_reaches (h : p.Valid) {a b : NodeId} {node : Node}
    (ha : p.tree.get? a = some node) (hab : p.tree.Reaches a b) :
    ∃ node, p.tree.get? b = some node := by
  rw [← Tree.mem_ids, Tree.ids, List.mem_map]
  have hle := h.ordered.index_le_of_reaches hab
  have hlt := Tree.index_lt_size ha
  exact ⟨b.index, List.mem_range.2 (by omega), rfl⟩

theorem exists_get?_root (h : p.Valid) : ∃ node, p.tree.get? p.tree.root = some node := by
  rw [← Tree.mem_ids, Tree.ids, List.mem_map]
  exact ⟨p.tree.root.index, List.mem_range.2 h.root, rfl⟩

theorem exists_get? (h : p.Valid) {id : NodeId} (hid : p.tree.Reaches p.tree.root id) :
    ∃ node, p.tree.get? id = some node := by
  obtain ⟨root, hroot⟩ := h.exists_get?_root
  exact h.exists_get?_of_reaches hroot hid

end Program.Valid

end ResultLint
