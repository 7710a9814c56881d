import ResultLint.Proofs.Validity

/-!
# The first violation

A program may be wrong in many places, and `Program.validate` answers with one violation.  Places
are numbered as the sections of a text are: `[3, 7, 0, 2]` is child 2 of node 7, and it is read
before `[3, 7, 1]`, the type of that node.

* `ReportsFirst c V`: the check `c` passes if nothing is wrong, and otherwise its error is what is
  wrong at the first place, where `V place e` says that `e` is wrong there.  Checks one after
  another report the first of all they look at (`ReportsFirst.andThen`, `ReportsFirst.forM`).
* `Ty.MentionsAt`, `Program.ViolatesAt`: the places of a type and of a program.
* `validate_reports_first`: **a program passes exactly if it is valid, and otherwise the answer is
  the violation at the first place that has one.**
-/

namespace ResultLint

/-! ## Checks that report the first finding -/

/-- A place in a program, to be read as the number of a section. -/
abbrev Place := List Nat

/-- The check passes if nothing is wrong anywhere.  Otherwise its error is the only thing wrong at
the first place where something is. -/
structure ReportsFirst {ε : Type} (c : Except ε Unit) (V : Place → ε → Prop) : Prop where
  ok : c = .ok () → ∀ k e, ¬ V k e
  error : ∀ e, c = .error e → ∃ k, V k e ∧ ∀ k' e', V k' e' → k < k' ∨ k' = k ∧ e' = e

/-- The places of a part, within the whole. -/
def Under {ε : Type} (n : Nat) (V : Place → ε → Prop) : Place → ε → Prop :=
  fun k e => ∃ k', k = n :: k' ∧ V k' e

/-- All findings of the one are at earlier places than all findings of the other. -/
def Before {ε : Type} (V W : Place → ε → Prop) : Prop :=
  ∀ k e k' e', V k e → W k' e' → k < k'

theorem before_under {ε : Type} {n m : Nat} {V W : Place → ε → Prop} (h : n < m) :
    Before (Under n V) (Under m W) := by
  rintro _ _ _ _ ⟨k, rfl, -⟩ ⟨k', rfl, -⟩
  exact List.cons_lt_cons_iff.2 (.inl h)

theorem Before.or {ε : Type} {V W W' : Place → ε → Prop} (h : Before V W) (h' : Before V W') :
    Before V fun k e => W k e ∨ W' k e := by
  rintro k e k' e' hV (hW | hW')
  · exact h k e k' e' hV hW
  · exact h' k e k' e' hV hW'

/-- A single check, with a place for it. -/
theorem reportsFirst_at {ε : Type} (c : Except ε Unit) (k : Place) :
    ReportsFirst c fun k' e => k' = k ∧ c = .error e := by
  constructor
  · rintro hc k' e ⟨-, he⟩
    rw [hc] at he
    cases he
  · intro e he
    refine ⟨k, ⟨rfl, he⟩, ?_⟩
    rintro k' e' ⟨hk, he'⟩
    rw [he] at he'
    exact .inr ⟨hk, (Except.error.inj he').symm⟩

theorem reportsFirst_nothing {ε : Type} {V : Place → ε → Prop} (hV : ∀ k e, ¬ V k e) :
    ReportsFirst (.ok ()) V :=
  ⟨fun _ => hV, fun e he => by cases he⟩

namespace ReportsFirst

variable {ε : Type} {c d : Except ε Unit} {V W : Place → ε → Prop}

theorem congr (h : ReportsFirst c V) (hVW : ∀ k e, W k e ↔ V k e) : ReportsFirst c W := by
  have hW : W = V := by
    funext k e
    exact propext (hVW k e)
  rwa [hW]

theorem under (h : ReportsFirst c V) (n : Nat) : ReportsFirst c (Under n V) := by
  constructor
  · rintro hc k e ⟨k', -, hV⟩
    exact h.ok hc k' e hV
  · intro e he
    obtain ⟨k, hk, hfirst⟩ := h.error e he
    refine ⟨n :: k, ⟨k, rfl, hk⟩, ?_⟩
    rintro _ e' ⟨k', rfl, hV⟩
    rcases hfirst k' e' hV with hlt | ⟨rfl, rfl⟩
    · exact .inl (List.cons_lt_cons_iff.2 (.inr ⟨rfl, hlt⟩))
    · exact .inr ⟨rfl, rfl⟩

/-- Two checks, the second of which looks at later places only. -/
theorem andThen (hc : ReportsFirst c V) (hd : ReportsFirst d W) (hVW : Before V W) :
    ReportsFirst (c >>= fun _ => d) fun k e => V k e ∨ W k e := by
  cases c with
  | error e =>
    refine ⟨fun h => (by cases h), fun e' he => ?_⟩
    obtain ⟨k, hk, hfirst⟩ := hc.error e' he
    refine ⟨k, .inl hk, ?_⟩
    rintro k' e'' (hV | hW)
    · exact hfirst k' e'' hV
    · exact .inl (hVW _ _ _ _ hk hW)
  | ok u =>
    have hV : ∀ k e, ¬ V k e := hc.ok rfl
    exact hd.congr fun k e => or_iff_right (hV k e)

/-- Checks over a list, each with the places of its position. -/
theorem forM {α : Type} {f : α → Except ε Unit} {V : α → Place → ε → Prop} {l : List α}
    (h : ∀ x ∈ l, ReportsFirst (f x) (V x)) :
    ReportsFirst (l.forM f) fun k e => ∃ i x k', l[i]? = some x ∧ k = i :: k' ∧ V x k' e := by
  -- the tail is checked from position 1 on, so the induction is over all starting positions
  suffices hs : ∀ n, ReportsFirst (l.forM f) fun k e =>
      ∃ i x k', l[i]? = some x ∧ k = (n + i) :: k' ∧ V x k' e by
    simpa only [Nat.zero_add] using hs 0
  induction l with
  | nil =>
    intro n
    exact reportsFirst_nothing (by simp)
  | cons x l ih =>
    intro n
    have hx := (h x List.mem_cons_self).under n
    have hl := ih (fun y hy => h y (List.mem_cons_of_mem x hy)) (n + 1)
    refine (hx.andThen hl ?_).congr fun k e => ⟨?_, ?_⟩
    · rintro _ _ _ _ ⟨k, rfl, -⟩ ⟨i, y, k', -, rfl, -⟩
      exact List.cons_lt_cons_iff.2 (.inl (by omega))
    · rintro ⟨i, y, k', hy, rfl, hV⟩
      cases i with
      | zero =>
        obtain rfl : x = y := by simpa using hy
        exact .inl ⟨k', rfl, hV⟩
      | succ i =>
        refine .inr ⟨i, y, k', by simpa using hy, ?_, hV⟩
        rw [Nat.add_right_comm, Nat.add_assoc]
    · rintro (⟨k', rfl, hV⟩ | ⟨i, y, k', hy, rfl, hV⟩)
      · exact ⟨0, x, k', rfl, rfl, hV⟩
      · refine ⟨i + 1, y, k', by simpa using hy, ?_, hV⟩
        rw [Nat.add_right_comm, Nat.add_assoc]

/-- **The error of such a check is the finding at the first place that has one.** -/
theorem eq_error_iff (h : ReportsFirst c V) {e : ε} :
    c = .error e ↔ ∃ k, V k e ∧ ∀ k' < k, ∀ e', ¬ V k' e' := by
  constructor
  · intro he
    obtain ⟨k, hk, hfirst⟩ := h.error e he
    refine ⟨k, hk, fun k' hlt e' hV => ?_⟩
    rcases hfirst k' e' hV with hgt | ⟨rfl, -⟩
    · exact List.lt_asymm hlt hgt
    · exact List.lt_irrefl k' hlt
  · rintro ⟨k, hk, hnone⟩
    cases hc : c with
    | ok u => exact absurd hk (h.ok hc k e)
    | error e' =>
      obtain ⟨k', hk', hfirst⟩ := h.error e' hc
      rcases hfirst k e hk with hlt | ⟨-, rfl⟩
      · exact absurd hk' (hnone k' hlt e')
      · rfl

end ReportsFirst

/-- Checks over a list, each a single one. -/
theorem reportsFirst_forM {ε α : Type} (f : α → Except ε Unit) (l : List α) :
    ReportsFirst (l.forM f) fun k e => ∃ i x, l[i]? = some x ∧ k = [i] ∧ f x = .error e := by
  have h : ReportsFirst (l.forM f) _ := .forM fun x _ => reportsFirst_at (f x) []
  refine h.congr fun k e => ⟨?_, ?_⟩
  · rintro ⟨i, x, hx, rfl, he⟩
    exact ⟨i, x, [], hx, rfl, rfl, he⟩
  · rintro ⟨i, x, _, hx, rfl, rfl, he⟩
    exact ⟨i, x, hx, rfl, he⟩

theorem forM_singleton {ε α : Type} (a : α) (f : α → Except ε Unit) : [a].forM f = f a := by
  rw [List.forM_eq_forM, List.forM_cons, List.forM_nil, bind_pure_unit]

/-- The check of what an option holds, if it holds anything. -/
theorem reportsFirst_toList {ε α : Type} (f : α → Except ε Unit) (o : Option α) :
    ReportsFirst (o.toList.forM f) fun k e => ∃ a, o = some a ∧ k = [] ∧ f a = .error e := by
  cases o with
  | none =>
    refine reportsFirst_nothing ?_
    rintro k e ⟨a, ⟨⟩, -⟩
  | some a =>
    rw [Option.toList_some, forM_singleton]
    refine (reportsFirst_at (f a) []).congr fun k e => ⟨?_, ?_⟩
    · rintro ⟨_, ⟨⟩, hk⟩
      exact hk
    · intro hk
      exact ⟨a, rfl, hk⟩

/-! ## The places of a type -/

/-- Parameters come before the return type. -/
inductive Signature.MentionsAt (s : Signature) : Place → TypeId → Prop
  | parameter {i : Nat} {p : Parameter} (hp : s.params[i]? = some p) : MentionsAt s [0, i] p.type
  | returnType : MentionsAt s [1] s.returnType

/-- Properties come before call signatures and these before construct signatures.  Members and
elements are in their own order. -/
inductive Ty.MentionsAt : Ty → Place → TypeId → Prop
  | property {o : ObjectType} {i : Nat} {p : Property} (hp : o.properties[i]? = some p) :
      MentionsAt (.object o) [0, i] p.type
  | callSignature {o : ObjectType} {i : Nat} {s : Signature} {k : Place} {r : TypeId}
      (hs : o.callSignatures[i]? = some s) (hr : s.MentionsAt k r) :
      MentionsAt (.object o) (1 :: i :: k) r
  | constructSignature {o : ObjectType} {i : Nat} {s : Signature} {k : Place} {r : TypeId}
      (hs : o.constructSignatures[i]? = some s) (hr : s.MentionsAt k r) :
      MentionsAt (.object o) (2 :: i :: k) r
  | member {members : List TypeId} {i : Nat} {m : TypeId} (hm : members[i]? = some m) :
      MentionsAt (.union members) [i] m
  | arrayElement (element : TypeId) : MentionsAt (.array element) [] element
  | tupleElement {elements : List TypeId} {i : Nat} {e : TypeId} (he : elements[i]? = some e) :
      MentionsAt (.tuple elements) [i] e
  | constraint (name : String) (c : TypeId) : MentionsAt (.parameter name (some c)) [] c

theorem forM_flatMap {ε α β : Type} (l : List α) (g : α → List β) (f : β → Except ε Unit) :
    (l.flatMap g).forM f = l.forM fun a => (g a).forM f := by
  induction l with
  | nil => rfl
  | cons a l ih =>
    rw [List.forM_eq_forM] at ih ⊢
    rw [List.flatMap_cons, List.forM_append, ih]
    rfl

section

variable {ε : Type} (f : TypeId → Except ε Unit)

theorem Signature.reportsFirst_references (s : Signature) :
    ReportsFirst (s.references.forM f) fun k e => ∃ r, s.MentionsAt k r ∧ f r = .error e := by
  have hp := (reportsFirst_forM (fun p : Parameter => f p.type) s.params).under 0
  have hr := (reportsFirst_at (f s.returnType) []).under 1
  rw [references, List.forM_eq_forM, List.forM_append, List.forM_map, ← List.forM_eq_forM,
    ← List.forM_eq_forM, forM_singleton]
  refine (hp.andThen hr (before_under Nat.zero_lt_one)).congr fun k e => ⟨?_, ?_⟩
  · rintro ⟨r, hr, he⟩
    cases hr with
    | parameter hp => exact .inl ⟨_, rfl, _, _, hp, rfl, he⟩
    | returnType => exact .inr ⟨_, rfl, rfl, he⟩
  · rintro (⟨_, rfl, i, p, hp, rfl, he⟩ | ⟨_, rfl, rfl, he⟩)
    · exact ⟨p.type, .parameter hp, he⟩
    · exact ⟨s.returnType, .returnType, he⟩

theorem ObjectType.reportsFirst_references (o : ObjectType) :
    ReportsFirst (o.references.forM f) fun k e =>
      ∃ r, (Ty.object o).MentionsAt k r ∧ f r = .error e := by
  have hp := (reportsFirst_forM (fun p : Property => f p.type) o.properties).under 0
  have hs : ∀ l : List Signature, ReportsFirst (l.forM fun s => s.references.forM f) _ :=
    fun l => .forM fun s _ => s.reportsFirst_references f
  have hcs := ((hs o.callSignatures).under 1).andThen ((hs o.constructSignatures).under 2)
    (before_under (by decide))
  rw [references, List.flatMap_append, List.forM_eq_forM, List.forM_append, List.forM_map,
    List.forM_append, ← List.forM_eq_forM, ← List.forM_eq_forM, forM_flatMap, forM_flatMap]
  have hpcs := hp.andThen hcs (.or (before_under (by decide)) (before_under (by decide)))
  refine hpcs.congr fun k e => ⟨?_, ?_⟩
  · rintro ⟨r, hr, he⟩
    cases hr with
    | property hp => exact .inl ⟨_, rfl, _, _, hp, rfl, he⟩
    | callSignature hs hr => exact .inr (.inl ⟨_, rfl, _, _, _, hs, rfl, r, hr, he⟩)
    | constructSignature hs hr => exact .inr (.inr ⟨_, rfl, _, _, _, hs, rfl, r, hr, he⟩)
  · rintro (⟨_, rfl, i, p, hp, rfl, he⟩ | ⟨_, rfl, i, s, k', hs, rfl, r, hr, he⟩ |
      ⟨_, rfl, i, s, k', hs, rfl, r, hr, he⟩)
    · exact ⟨p.type, .property hp, he⟩
    · exact ⟨r, .callSignature hs hr, he⟩
    · exact ⟨r, .constructSignature hs hr, he⟩

/-- **The references of a type are checked in the order of their places.** -/
theorem Ty.reportsFirst_references (ty : Ty) :
    ReportsFirst (ty.references.forM f) fun k e => ∃ r, ty.MentionsAt k r ∧ f r = .error e := by
  cases ty with
  | primitive p =>
    refine reportsFirst_nothing ?_
    rintro k e ⟨r, ⟨⟩, -⟩
  | literal l =>
    refine reportsFirst_nothing ?_
    rintro k e ⟨r, ⟨⟩, -⟩
  | object o => exact o.reportsFirst_references f
  | union members =>
    refine (reportsFirst_forM f members).congr fun k e => ⟨?_, ?_⟩
    · rintro ⟨r, hr, he⟩
      cases hr with
      | member hm => exact ⟨_, r, hm, rfl, he⟩
    · rintro ⟨i, m, hm, rfl, he⟩
      exact ⟨m, .member hm, he⟩
  | array element =>
    rw [references, forM_singleton]
    refine (reportsFirst_at (f element) []).congr fun k e => ⟨?_, ?_⟩
    · rintro ⟨r, ⟨⟩, he⟩
      exact ⟨rfl, he⟩
    · rintro ⟨rfl, he⟩
      exact ⟨element, .arrayElement element, he⟩
  | tuple elements =>
    refine (reportsFirst_forM f elements).congr fun k e => ⟨?_, ?_⟩
    · rintro ⟨r, hr, he⟩
      cases hr with
      | tupleElement hm => exact ⟨_, r, hm, rfl, he⟩
    · rintro ⟨i, m, hm, rfl, he⟩
      exact ⟨m, .tupleElement hm, he⟩
  | parameter name constraint =>
    refine (reportsFirst_toList f constraint).congr fun k e => ⟨?_, ?_⟩
    · rintro ⟨r, ⟨⟩, he⟩
      exact ⟨r, rfl, rfl, he⟩
    · rintro ⟨c, rfl, rfl, he⟩
      exact ⟨c, .constraint name c, he⟩

end

/-! ## The places of a program -/

theorem require_eq_error_iff {b : Bool} {v e : Violation} :
    require b v = .error e ↔ b = false ∧ e = v := by
  cases b <;> simp [require, eq_comm]

theorem bind_eq_error_iff {ε α : Type} {x : Except ε Unit} {f : Unit → Except ε α} {e : ε} :
    (x >>= f) = .error e ↔ x = .error e ∨ x = .ok () ∧ f () = .error e := by
  cases x with
  | error e' => simp [bind, Except.bind]
  | ok u => simp [bind, Except.bind]

theorem Tree.checkChild_eq_error_iff {t : Tree} {id child : NodeId} {e : Violation} :
    t.checkChild id child = .error e ↔
      t.size ≤ child.index ∧ e = .missingNode id child ∨
        child.index < t.size ∧ id.index ≤ child.index ∧ e = .childOrder id child := by
  rw [checkChild, bind_eq_error_iff, require_eq_error_iff, require_eq_ok_iff, require_eq_error_iff,
    decide_eq_false_iff_not, decide_eq_true_iff, decide_eq_false_iff_not, Nat.not_lt, Nat.not_lt]

theorem TypeTable.getElem?_ids {t : TypeTable} {i : Nat} {id : TypeId} :
    t.ids[i]? = some id ↔ id.index = i ∧ id ∈ t.ids := by
  constructor
  · intro h
    obtain ⟨hi, rfl⟩ := List.getElem?_eq_some_iff.1 h
    exact ⟨by simp [ids], List.mem_of_getElem? h⟩
  · rintro ⟨rfl, hid⟩
    obtain ⟨n, hn, rfl⟩ := List.mem_map.1 hid
    simp [ids, List.mem_range.1 hn]

theorem Tree.getElem?_ids {t : Tree} {i : Nat} {id : NodeId} :
    t.ids[i]? = some id ↔ id.index = i ∧ id ∈ t.ids := by
  constructor
  · intro h
    obtain ⟨hi, rfl⟩ := List.getElem?_eq_some_iff.1 h
    exact ⟨by simp [ids], List.mem_of_getElem? h⟩
  · rintro ⟨rfl, hid⟩
    obtain ⟨n, hn, rfl⟩ := List.mem_map.1 hid
    simp [ids, List.mem_range.1 hn]

theorem Primitive.getElem?_all {i : Nat} {x : Primitive} :
    all[i]? = some x ↔ x.id.index = i := by
  have hx : all[x.id.index]? = some x := by cases x <;> rfl
  have hlt : x.id.index < all.length := by cases x <;> decide
  constructor
  · intro h
    exact (List.getElem?_inj hlt (by decide)).1 (hx.trans h.symm)
  · rintro rfl
    exact hx

namespace Program

/-- What is wrong within a node: its children come first, then its type, then its contextual
type. -/
inductive NodeViolatesAt (p : Program) (id : NodeId) (node : Node) : Place → Violation → Prop
  | missingNode {i : Nat} {child : NodeId} (hc : node.kind.children[i]? = some child)
      (h : p.tree.size ≤ child.index) : NodeViolatesAt p id node [0, i] (.missingNode id child)
  | childOrder {i : Nat} {child : NodeId} (hc : node.kind.children[i]? = some child)
      (hlt : child.index < p.tree.size) (h : id.index ≤ child.index) :
      NodeViolatesAt p id node [0, i] (.childOrder id child)
  | type {r : TypeId} (hr : node.type = some r) (h : p.types.contains r = false) :
      NodeViolatesAt p id node [1] (.nodeRefersToMissingType id r)
  | contextualType {r : TypeId} (hr : node.contextualType = some r)
      (h : p.types.contains r = false) :
      NodeViolatesAt p id node [2] (.nodeRefersToMissingType id r)

/-- What is wrong in a program: primitives come first, then the types, the root, and the nodes. -/
inductive ViolatesAt (p : Program) : Place → Violation → Prop
  | primitive {x : Primitive} (h : p.types.get? x.id ≠ some (.primitive x)) :
      ViolatesAt p [0, x.id.index] (.primitiveMismatch x.id)
  | type {id : TypeId} {ty : Ty} {k : Place} {r : TypeId} (hty : p.types.get? id = some ty)
      (hr : ty.MentionsAt k r) (h : p.types.contains r = false) :
      ViolatesAt p (1 :: id.index :: k) (.typeRefersToMissingType id r)
  | root (h : p.tree.size ≤ p.tree.root.index) : ViolatesAt p [2] (.missingRoot p.tree.root)
  | node {id : NodeId} {node : Node} {k : Place} {v : Violation}
      (hn : p.tree.get? id = some node) (h : p.NodeViolatesAt id node k v) :
      ViolatesAt p (3 :: id.index :: k) v

theorem reportsFirst_primitives (p : Program) :
    ReportsFirst (Primitive.all.forM p.types.checkPrimitive) fun k v =>
      p.ViolatesAt (0 :: k) v := by
  refine (reportsFirst_forM _ _).congr fun k v => ⟨?_, ?_⟩
  · intro hv
    cases hv with
    | primitive h =>
      refine ⟨_, _, Primitive.getElem?_all.2 rfl, rfl, ?_⟩
      exact require_eq_error_iff.2 ⟨decide_eq_false h, rfl⟩
  · rintro ⟨i, x, hx, rfl, he⟩
    obtain ⟨h, rfl⟩ := require_eq_error_iff.1 he
    obtain rfl := Primitive.getElem?_all.1 hx
    exact .primitive (of_decide_eq_false h)

theorem reportsFirst_types (p : Program) :
    ReportsFirst (p.types.ids.forM p.types.checkEntry) fun k v => p.ViolatesAt (1 :: k) v := by
  have h : ReportsFirst (p.types.ids.forM p.types.checkEntry) _ :=
    .forM fun id _ => (p.types.resolve id).reportsFirst_references _
  refine h.congr fun k v => ⟨?_, ?_⟩
  · intro hv
    cases hv with
    | type hty hr hmissing =>
      have hid := TypeTable.mem_ids.2 (Option.isSome_iff_exists.2 ⟨_, hty⟩)
      refine ⟨_, _, _, TypeTable.getElem?_ids.2 ⟨rfl, hid⟩, rfl, _, ?_,
        require_eq_error_iff.2 ⟨hmissing, rfl⟩⟩
      rwa [TypeTable.resolve_of_get? hty]
  · rintro ⟨i, id, k', hid, rfl, r, hr, he⟩
    obtain ⟨hmissing, rfl⟩ := require_eq_error_iff.1 he
    obtain ⟨rfl, hmem⟩ := TypeTable.getElem?_ids.1 hid
    obtain ⟨ty, hty⟩ := Option.isSome_iff_exists.1 (TypeTable.mem_ids.1 hmem)
    rw [TypeTable.resolve_of_get? hty] at hr
    exact .type hty hr hmissing

theorem reportsFirst_root (p : Program) :
    ReportsFirst p.tree.checkRoot fun k v => p.ViolatesAt (2 :: k) v := by
  refine (reportsFirst_at p.tree.checkRoot []).congr fun k v => ⟨?_, ?_⟩
  · intro hv
    cases hv with
    | root h => exact ⟨rfl, require_eq_error_iff.2 ⟨decide_eq_false (Nat.not_lt.2 h), rfl⟩⟩
  · rintro ⟨rfl, he⟩
    obtain ⟨h, rfl⟩ := require_eq_error_iff.1 he
    exact .root (Nat.not_lt.1 (of_decide_eq_false h))

theorem reportsFirst_node (p : Program) (id : NodeId) (node : Node) :
    ReportsFirst (p.checkNode id node) (p.NodeViolatesAt id node) := by
  have hc := (reportsFirst_forM (p.tree.checkChild id) node.kind.children).under 0
  have ht := fun o n => (reportsFirst_toList (fun r =>
    require (p.types.contains r) (.nodeRefersToMissingType id r)) o).under n
  have htt := (ht node.type 1).andThen (ht node.contextualType 2) (before_under (by decide))
  have hctt := hc.andThen htt (.or (before_under (by decide)) (before_under (by decide)))
  rw [checkNode, List.forM_eq_forM (α := TypeId), List.forM_append]
  refine hctt.congr fun k v => ⟨?_, ?_⟩
  · intro hv
    cases hv with
    | missingNode hi h =>
      exact .inl ⟨_, rfl, _, _, hi, rfl, Tree.checkChild_eq_error_iff.2 (.inl ⟨h, rfl⟩)⟩
    | childOrder hi hlt h =>
      exact .inl ⟨_, rfl, _, _, hi, rfl, Tree.checkChild_eq_error_iff.2 (.inr ⟨hlt, h, rfl⟩)⟩
    | type hr h =>
      exact .inr (.inl ⟨_, rfl, _, hr, rfl, require_eq_error_iff.2 ⟨h, rfl⟩⟩)
    | contextualType hr h =>
      exact .inr (.inr ⟨_, rfl, _, hr, rfl, require_eq_error_iff.2 ⟨h, rfl⟩⟩)
  · rintro (⟨_, rfl, i, child, hi, rfl, he⟩ | ⟨_, rfl, r, hr, rfl, he⟩ | ⟨_, rfl, r, hr, rfl, he⟩)
    · rcases Tree.checkChild_eq_error_iff.1 he with ⟨h, rfl⟩ | ⟨hlt, h, rfl⟩
      · exact .missingNode hi h
      · exact .childOrder hi hlt h
    · obtain ⟨h, rfl⟩ := require_eq_error_iff.1 he
      exact .type hr h
    · obtain ⟨h, rfl⟩ := require_eq_error_iff.1 he
      exact .contextualType hr h

theorem reportsFirst_nodes (p : Program) :
    ReportsFirst (p.tree.ids.forM fun id => (p.tree.get? id).toList.forM (p.checkNode id))
      fun k v => p.ViolatesAt (3 :: k) v := by
  have h : ∀ id ∈ p.tree.ids, ReportsFirst ((p.tree.get? id).toList.forM (p.checkNode id))
      fun k v => ∃ node, p.tree.get? id = some node ∧ p.NodeViolatesAt id node k v := by
    intro id hid
    obtain ⟨node, hn⟩ := Tree.mem_ids.1 hid
    rw [hn, Option.toList_some, forM_singleton]
    refine (p.reportsFirst_node id node).congr fun k v => ⟨?_, fun hv => ⟨node, rfl, hv⟩⟩
    rintro ⟨_, ⟨⟩, hv⟩
    exact hv
  refine (ReportsFirst.forM h).congr fun k v => ⟨?_, ?_⟩
  · intro hv
    cases hv with
    | node hn hv =>
      exact ⟨_, _, _, Tree.getElem?_ids.2 ⟨rfl, Tree.mem_ids.2 ⟨_, hn⟩⟩, rfl, _, hn, hv⟩
  · rintro ⟨i, id, k', hid, rfl, node, hn, hv⟩
    obtain ⟨rfl, -⟩ := Tree.getElem?_ids.1 hid
    exact .node hn hv

theorem reportsFirst_validate (p : Program) : ReportsFirst p.validate p.ViolatesAt := by
  have hp := p.reportsFirst_primitives.under 0
  have ht := p.reportsFirst_types.under 1
  have hr := p.reportsFirst_root.under 2
  have hn := p.reportsFirst_nodes.under 3
  have hrn := hr.andThen hn (before_under (by decide))
  have htrn := ht.andThen hrn (.or (before_under (by decide)) (before_under (by decide)))
  have hall := hp.andThen htrn (.or (before_under (by decide))
    (.or (before_under (by decide)) (before_under (by decide))))
  refine hall.congr fun k v => ⟨?_, ?_⟩
  · intro hv
    cases hv with
    | primitive h => exact .inl ⟨_, rfl, .primitive h⟩
    | type hty hr h => exact .inr (.inl ⟨_, rfl, .type hty hr h⟩)
    | root h => exact .inr (.inr (.inl ⟨_, rfl, .root h⟩))
    | node hn h => exact .inr (.inr (.inr ⟨_, rfl, .node hn h⟩))
  · rintro (⟨_, rfl, hv⟩ | ⟨_, rfl, hv⟩ | ⟨_, rfl, hv⟩ | ⟨_, rfl, hv⟩)
    all_goals exact hv

/-- **The answer of `validate`.**  A program passes exactly if it is valid.  It fails with a
violation exactly if that is what is wrong at the first place where something is. -/
theorem validate_reports_first (p : Program) :
    (p.validate = .ok () ↔ p.Valid) ∧
      ∀ v, p.validate = .error v ↔
        ∃ k, p.ViolatesAt k v ∧ ∀ k' < k, ∀ v', ¬ p.ViolatesAt k' v' :=
  ⟨validate_eq_ok_iff, fun _ => p.reportsFirst_validate.eq_error_iff⟩

end Program

end ResultLint
