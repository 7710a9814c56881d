import Mathlib.Data.List.Forall2
import ResultLint.Proofs.Containment
import ResultLint.Proofs.Translation.Types

/-!
# Tables that answer alike

A table is **like** another if each entry of the first has an entry like it under the same number in
the second: names of types and parameters may differ, and unions may list their members in another
way.  The second table may have more entries, which nothing in the first leads to.

* `expand_congr`: an expansion depends only on the numbers that it meets.
* `Alike.reaches_iff`, `Alike.apparentType_eq`: the same steps lead to the same numbers.
* `Alike.mem_apparentMembers_iff`: **the apparent members are the same**, in some order.
* `SameOrder.apparentMembers_eq`: **and in the same order, where unions keep theirs.**
-/

namespace ResultLint

open Relation (ReflTransGen TransGen)

/-! ## Expansions -/

/-- **An expansion depends only on the numbers that it meets.** -/
theorem Expansion.expand_congr {e e' : Expansion} {M : TypeId → Prop}
    (hmet : ∀ id, M id → e.opens id = true → ∀ part ∈ e.parts id, M part)
    (hopens : ∀ id, M id → e'.opens id = e.opens id)
    (hparts : ∀ id, M id → e.opens id = true → e'.parts id = e.parts id)
    {fresh fresh' work : List TypeId} (hwork : ∀ id ∈ work, M id)
    (hfresh : ∀ id, M id → e.opens id = true → (id ∈ fresh' ↔ id ∈ fresh)) :
    e'.expand fresh' work = e.expand fresh work := by
  have h : e.Translates id M (fun _ => False) e' := {
    met := fun {id} => hmet id
    opens := fun {id} hid _ => hopens id hid
    parts := fun {id} hid _ ho => (hparts id hid ho).trans (List.map_id _).symm
    lost := fun _ hlost => hlost.elim
    injective := fun _ _ _ _ _ _ => id }
  have hsame := h.map_expand (fun _ => id) hwork hfresh
  rwa [List.map_id, List.map_id] at hsame

/-- Two relations that agree where one of them stays have the same paths there. -/
theorem reflTransGen_congr {α : Type} {r s : α → α → Prop} {P : α → Prop}
    (hP : ∀ {a b}, P a → r a b → P b) (hrs : ∀ {a b}, P a → (s a b ↔ r a b)) {a b : α} (ha : P a) :
    ReflTransGen s a b ↔ ReflTransGen r a b := by
  constructor
  · intro h
    induction h using ReflTransGen.head_induction_on with
    | refl => exact .refl
    | head hac _ ih =>
      have hr := (hrs ha).1 hac
      exact .head hr (ih (hP ha hr))
  · intro h
    induction h using ReflTransGen.head_induction_on with
    | refl => exact .refl
    | head hac _ ih => exact .head ((hrs ha).2 hac) (ih (hP ha hac))

/-! ## Entries -/

/-- Arrays that go together entry by entry have their entries under the same numbers. -/
theorem getElem?_cases_of_forall₂ {α β : Type} {R : α → β → Prop} {xs : Array α} {ys : Array β}
    (h : List.Forall₂ R xs.toList ys.toList) (i : Nat) :
    (xs[i]? = none ∧ ys[i]? = none) ∨ ∃ x y, xs[i]? = some x ∧ ys[i]? = some y ∧ R x y := by
  have hsize : xs.size = ys.size := h.length_eq
  by_cases hi : i < xs.size
  · have hi' : i < ys.size := by omega
    refine Or.inr ⟨_, _, Array.getElem?_eq_getElem hi, Array.getElem?_eq_getElem hi', ?_⟩
    exact (List.forall₂_iff_get.1 h).2 i hi hi'
  · exact Or.inl ⟨Array.getElem?_eq_none (by omega), Array.getElem?_eq_none (by omega)⟩

/-- The parameters have the same types, under any names, and so has the result. -/
structure Signature.Alike (s s' : Signature) : Prop where
  params : s'.params.map (fun p => (p.type, p.rest)) = s.params.map fun p => (p.type, p.rest)
  returnType : s'.returnType = s.returnType

/-- The types differ in names only, and in the members of unions as far as `same` lets them. -/
inductive Ty.Alike (same : List TypeId → List TypeId → Prop) : Ty → Ty → Prop
  | primitive (p : Primitive) : Alike same (.primitive p) (.primitive p)
  | literal (l : LiteralType) : Alike same (.literal l) (.literal l)
  | object {o o' : ObjectType} (properties : o'.properties = o.properties)
      (calls : List.Forall₂ Signature.Alike o.callSignatures o'.callSignatures)
      (constructs : List.Forall₂ Signature.Alike o.constructSignatures o'.constructSignatures) :
      Alike same (.object o) (.object o')
  | union {members members' : List TypeId} (h : same members members') :
      Alike same (.union members) (.union members')
  | array (element : TypeId) : Alike same (.array element) (.array element)
  | tuple (elements : List TypeId) : Alike same (.tuple elements) (.tuple elements)
  | parameter (name name' : String) (constraint : Option TypeId) :
      Alike same (.parameter name constraint) (.parameter name' constraint)

theorem Signature.Alike.refl (s : Signature) : s.Alike s := ⟨rfl, rfl⟩

theorem Ty.Alike.refl {same : List TypeId → List TypeId → Prop} (hsame : ∀ l, same l l) (ty : Ty) :
    ty.Alike same ty := by
  have hsignatures : ∀ l : List Signature, List.Forall₂ Signature.Alike l l :=
    fun l => List.forall₂_same.2 fun s _ => Signature.Alike.refl s
  cases ty with
  | primitive p => exact .primitive p
  | literal l => exact .literal l
  | object o => exact .object rfl (hsignatures _) (hsignatures _)
  | union members => exact .union (hsame members)
  | array element => exact .array element
  | tuple elements => exact .tuple elements
  | parameter name constraint => exact .parameter name name constraint

/-- The lists have the same members. -/
def SameMembers (l l' : List TypeId) : Prop := ∀ id, id ∈ l' ↔ id ∈ l

namespace TypeTable

variable {t u : TypeTable}

/-- Each entry of `t` has one like it in `u`. -/
structure Alike (same : List TypeId → List TypeId → Prop) (t u : TypeTable) : Prop where
  entry : ∀ {id : TypeId} {ty : Ty}, t.get? id = some ty →
    ∃ ty', u.get? id = some ty' ∧ ty.Alike same ty'

theorem Alike.mono {same same' : List TypeId → List TypeId → Prop} (h : t.Alike same u)
    (hsame : ∀ {l l'}, same l l' → same' l l') : t.Alike same' u := by
  constructor
  intro id ty hty
  obtain ⟨ty', hty', ha⟩ := h.entry hty
  refine ⟨ty', hty', ?_⟩
  cases ha with
  | primitive p => exact .primitive p
  | literal l => exact .literal l
  | object hp hc hk => exact .object hp hc hk
  | union hu => exact .union (hsame hu)
  | array element => exact .array element
  | tuple elements => exact .tuple elements
  | parameter name name' constraint => exact .parameter name name' constraint

theorem Alike.sameMembers_of_eq (h : t.Alike Eq u) : t.Alike SameMembers u := by
  apply h.mono
  rintro l _ rfl id
  exact Iff.rfl

namespace Alike

/-! ## The same steps -/

theorem contains {same : List TypeId → List TypeId → Prop} (h : t.Alike same u) {id : TypeId}
    (hid : t.contains id = true) : u.contains id = true := by
  obtain ⟨ty, hty⟩ := contains_iff.1 hid
  obtain ⟨ty', hty', _⟩ := h.entry hty
  exact contains_iff.2 ⟨ty', hty'⟩

section

variable (h : t.Alike SameMembers u) {a b : TypeId}

include h

theorem constraint_iff (ha : t.contains a = true) : u.Constraint a b ↔ t.Constraint a b := by
  obtain ⟨ty, hty⟩ := contains_iff.1 ha
  obtain ⟨ty', hty', halike⟩ := h.entry hty
  unfold Constraint
  rw [hty, hty']
  cases halike <;> simp

theorem member_iff (ha : t.contains a = true) : u.Member a b ↔ t.Member a b := by
  obtain ⟨ty, hty⟩ := contains_iff.1 ha
  obtain ⟨ty', hty', halike⟩ := h.entry hty
  unfold Member
  rw [hty, hty']
  cases halike with
  | union hu => simpa using hu b
  | _ => simp

theorem standsFor_iff (ha : t.contains a = true) : u.StandsFor a b ↔ t.StandsFor a b :=
  or_congr (h.member_iff ha) (h.constraint_iff ha)

theorem unconstrained_iff (ha : t.contains a = true) :
    (∃ name, u.get? a = some (.parameter name none)) ↔
      ∃ name, t.get? a = some (.parameter name none) := by
  obtain ⟨ty, hty⟩ := contains_iff.1 ha
  obtain ⟨ty', hty', halike⟩ := h.entry hty
  rw [hty, hty']
  cases halike <;> simp

variable (ht : t.WellFormed)

include ht

theorem reaches_iff (ha : t.contains a = true) : u.Reaches a b ↔ t.Reaches a b :=
  reflTransGen_congr (P := fun a => t.contains a = true) (fun _ hab => ht.contains_of_standsFor hab)
    (fun ha => h.standsFor_iff ha) ha

theorem constraints_iff (ha : t.contains a = true) :
    ReflTransGen u.Constraint a b ↔ ReflTransGen t.Constraint a b :=
  reflTransGen_congr (P := fun a => t.contains a = true)
    (fun _ hab => ht.contains_of_standsFor (Or.inr hab)) (fun ha => h.constraint_iff ha) ha

theorem circular_iff (ha : t.contains a = true) : u.Circular a ↔ t.Circular a := by
  refine exists_congr fun b => ?_
  rw [h.constraints_iff ht ha]
  refine and_congr_right fun hab => ?_
  have hb := ht.contains_of_reaches ha (reaches_of_constraints hab)
  rw [TransGen.head'_iff, TransGen.head'_iff]
  refine exists_congr fun c => ?_
  rw [h.constraint_iff hb]
  refine and_congr_right fun hbc => ?_
  exact h.constraints_iff ht (ht.contains_of_standsFor (Or.inr hbc))

theorem leadsNowhere_iff (ha : t.contains a = true) : u.LeadsNowhere a ↔ t.LeadsNowhere a :=
  or_congr (h.unconstrained_iff ha) (h.circular_iff ht ha)

/-- **The apparent type is the same.** -/
theorem apparentType_eq (ha : t.contains a = true) : u.apparentType a = t.apparentType a := by
  rcases t.endsAt_or_circular a with ⟨b, hb⟩ | hc
  · have hcontains := ht.contains_of_reaches ha (reaches_of_constraints hb.1)
    have hu : u.EndsAt a b := by
      refine ⟨(h.constraints_iff ht ha).2 hb.1, fun c hc => hb.2 c ?_⟩
      exact (h.constraint_iff hcontains).1 hc
    obtain ⟨ty, hty⟩ := contains_iff.1 hcontains
    obtain ⟨ty', hty', halike⟩ := h.entry hty
    rw [hb.apparentType_eq, hu.apparentType_eq, followConstraints, followConstraints, hty, hty']
    cases halike with
    | parameter name name' constraint => cases constraint <;> rfl
    | _ => rfl
  · rw [hc.apparentType_eq, Circular.apparentType_eq ((h.circular_iff ht ha).2 hc)]

theorem leaf_iff {m : TypeId} (ha : t.contains a = true) : u.Leaf a m ↔ t.Leaf a m := by
  have hentry : ∀ {m : TypeId} {ty ty' : Ty}, t.get? m = some ty → u.get? m = some ty' →
      ty'.isUnion = ty.isUnion ∧ ty'.isParameter = ty.isParameter := by
    intro m ty ty' hty hty'
    obtain ⟨ty'', hty'', halike⟩ := h.entry hty
    rw [hty'] at hty''
    cases hty''
    cases halike <;> exact ⟨rfl, rfl⟩
  constructor
  · intro hm
    cases hm with
    | @entry _ ty' hr hm hu hp =>
      have hr := (h.reaches_iff ht ha).1 hr
      obtain ⟨ty, hty⟩ := contains_iff.1 (ht.contains_of_reaches ha hr)
      obtain ⟨hunion, hparameter⟩ := hentry hty hm
      exact .entry hr hty (hunion.symm.trans hu) (hparameter.symm.trans hp)
    | unknown hr hp =>
      have hr := (h.reaches_iff ht ha).1 hr
      exact .unknown hr ((h.leadsNowhere_iff ht (ht.contains_of_reaches ha hr)).1 hp)
  · intro hm
    cases hm with
    | @entry _ ty hr hm hu hp =>
      obtain ⟨ty', hty', _⟩ := h.entry hm
      obtain ⟨hunion, hparameter⟩ := hentry hm hty'
      exact .entry ((h.reaches_iff ht ha).2 hr) hty' (hunion.trans hu) (hparameter.trans hp)
    | unknown hr hp =>
      exact .unknown ((h.reaches_iff ht ha).2 hr)
        ((h.leadsNowhere_iff ht (ht.contains_of_reaches ha hr)).2 hp)

/-- **The apparent members are the same**, in some order. -/
theorem mem_apparentMembers_iff (hu : u.WellFormed) {m : TypeId} (ha : t.contains a = true) :
    m ∈ u.apparentMembers a ↔ m ∈ t.apparentMembers a := by
  rw [hu.mem_apparentMembers_iff_leaf (h.contains ha), ht.mem_apparentMembers_iff_leaf ha,
    h.leaf_iff ht ha]

end

end Alike

/-! ## The same order -/

/-- Where `M` holds, and so of all that is met from there, unions list their members in the same
order. -/
structure SameOrder (t u : TypeTable) (M : TypeId → Prop) : Prop where
  contains : ∀ {a : TypeId}, M a → t.contains a = true
  standsFor : ∀ {a b : TypeId}, M a → t.StandsFor a b → M b
  unknown : M .unknown
  union? : ∀ {a : TypeId}, M a → u.union? a = t.union? a

namespace SameOrder

variable {M : TypeId → Prop} (ho : t.SameOrder u M) {a : TypeId}

include ho

theorem of_reaches {b : TypeId} (ha : M a) (hab : t.Reaches a b) : M b := by
  induction hab with
  | refl => exact ha
  | tail _ hbc ih => exact ho.standsFor ih hbc

theorem of_mem_unionMembers {m : TypeId} (ha : M a) (hm : m ∈ t.unionMembers a) : M m := by
  have hpath := (mem_unionMembers_iff.1 hm).2
  exact ho.of_reaches ha (ReflTransGen.mono (fun _ _ => Or.inl) _ _ hpath)

theorem apparentType (ht : t.WellFormed) (ha : M a) : M (t.apparentType a) := by
  rcases ht.apparentType_cases (ho.contains ha) with ⟨hpath, _⟩ | ⟨hunknown, _⟩
  · exact ho.of_reaches ha (reaches_of_constraints hpath)
  · rw [hunknown]
    exact ho.unknown

variable (h : t.Alike SameMembers u)

include h

theorem unionMembers_eq (ha : M a) : u.unionMembers a = t.unionMembers a := by
  rw [unionMembers_eq_expand, unionMembers_eq_expand]
  apply Expansion.expand_congr (M := M)
  · intro id hid hopen part hpart
    have hmember : t.Member id part := by
      rw [← unions_part_iff]
      exact ⟨hopen, mem_ids_of_isSome_union? hopen, hpart⟩
    exact ho.standsFor hid (Or.inl hmember)
  · intro id hid
    show (u.union? id).isSome = (t.union? id).isSome
    rw [ho.union? hid]
  · intro id hid _
    show (u.union? id).getD [] = (t.union? id).getD []
    rw [ho.union? hid]
  · intro id hid
    rwa [List.mem_singleton.1 hid]
  · intro id hid _
    rw [mem_ids, mem_ids, Option.isSome_iff_exists, Option.isSome_iff_exists, ← contains_iff,
      ← contains_iff]
    exact iff_of_true (h.contains (ho.contains hid)) (ho.contains hid)

/-- **The apparent members are the same, in the same order.** -/
theorem apparentMembers_eq (ht : t.WellFormed) (ha : M a) :
    u.apparentMembers a = t.apparentMembers a := by
  have happarent : ∀ {id : TypeId}, M id → u.apparentType id = t.apparentType id :=
    fun hid => h.apparentType_eq ht (ho.contains hid)
  have hmembers : ∀ {id : TypeId}, M id →
      u.unionMembers (u.apparentType id) = t.unionMembers (t.apparentType id) := by
    intro id hid
    rw [happarent hid, ho.unionMembers_eq h (ho.apparentType ht hid)]
  have hfresh : ∀ {v : TypeTable} {id : TypeId}, v.contains id = true →
      (id ∈ Expansion.without (v.ids ++ v.listedMembers) a ↔ id ≠ a) := by
    intro v id hid
    rw [Expansion.mem_without, List.mem_append, mem_ids, Option.isSome_iff_exists, ← contains_iff]
    exact and_iff_right (Or.inl hid)
  rw [TypeTable.apparentMembers_eq_expand, TypeTable.apparentMembers_eq_expand, hmembers ha]
  apply Expansion.expand_congr (M := M)
  · intro id hid _ part hpart
    exact ho.of_mem_unionMembers (ho.apparentType ht hid) hpart
  · intro id hid
    show decide (u.apparentType id ≠ id) = decide (t.apparentType id ≠ id)
    rw [happarent hid]
  · intro id hid _
    exact hmembers hid
  · intro id hid
    exact ho.of_mem_unionMembers (ho.apparentType ht ha) hid
  · intro id hid _
    rw [hfresh (h.contains (ho.contains hid)), hfresh (ho.contains hid)]

end SameOrder

namespace Alike

variable (h : t.Alike Eq u) (ht : t.WellFormed) {a : TypeId}

include h ht

theorem sameOrder : t.SameOrder u fun id => t.contains id = true where
  contains ha := ha
  standsFor _ hab := ht.contains_of_standsFor hab
  unknown := contains_iff.2 ⟨_, ht.primitive .unknown⟩
  union? := by
    intro a ha
    obtain ⟨ty, hty⟩ := contains_iff.1 ha
    obtain ⟨ty', hty', halike⟩ := h.entry hty
    rw [TypeTable.union?, TypeTable.union?, hty, hty']
    cases halike with
    | union hu => rw [hu]
    | _ => rfl

theorem unionMembers_eq (ha : t.contains a = true) : u.unionMembers a = t.unionMembers a :=
  (h.sameOrder ht).unionMembers_eq h.sameMembers_of_eq ha

theorem apparentMembers_eq (ha : t.contains a = true) :
    u.apparentMembers a = t.apparentMembers a :=
  (h.sameOrder ht).apparentMembers_eq h.sameMembers_of_eq ht ha

end Alike

end TypeTable

end ResultLint
