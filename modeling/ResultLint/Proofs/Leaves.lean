import ResultLint.Proofs.Constraints
import ResultLint.Proofs.Reachability
import ResultLint.Proofs.Validity

/-!
# Leaves of a type

A union stands for its members and a parameter for its constraint.  The **leaves** of a type are the
entries at the ends of these steps, together with `unknown` where a chain of constraints leads
nowhere.  `Leaf` says so by reachability alone, for tables that may be cyclic in every way.

* `mem_unionMembers_iff`, `mem_apparentMembers_iff`: the two walks find what paths lead to.
* `mem_apparentMembers_iff_leaf`: **in a well-formed table the apparent members are the leaves.**
* `leaf_union_iff`, `leaf_constraint_iff`, `leaf_unconstrained_iff`: leaves from one step to the
  next.
-/

namespace ResultLint.TypeTable

open Relation (ReflTransGen TransGen)

variable {t : TypeTable}

/-! ## Steps -/

/-- `b` is a member of the union `a`. -/
def Member (t : TypeTable) (a b : TypeId) : Prop :=
  ∃ members, t.get? a = some (.union members) ∧ b ∈ members

def StandsFor (t : TypeTable) (a b : TypeId) : Prop := t.Member a b ∨ t.Constraint a b

def Reaches (t : TypeTable) : TypeId → TypeId → Prop := ReflTransGen t.StandsFor

/-- The entries that `id` comes down to. -/
inductive Leaf (t : TypeTable) (id : TypeId) : TypeId → Prop
  | entry {m : TypeId} {ty : Ty} (hr : t.Reaches id m) (hm : t.get? m = some ty)
      (hu : ty.isUnion = false) (hp : ty.isParameter = false) : Leaf t id m
  | unknown {p : TypeId} (hr : t.Reaches id p) (hp : t.LeadsNowhere p) : Leaf t id .unknown

theorem reaches_of_constraints {a b : TypeId} (h : ReflTransGen t.Constraint a b) :
    t.Reaches a b :=
  ReflTransGen.mono (fun _ _ => Or.inr) _ _ h

/-! ## The two walks -/

theorem unions_part_iff {a b : TypeId} : t.unions.Part t.ids a b ↔ t.Member a b := by
  simp only [Expansion.Part, unions, Member, mem_ids]
  constructor
  · rintro ⟨ho, _, hb⟩
    obtain ⟨members, hm⟩ := Option.isSome_iff_exists.1 ho
    rw [hm, Option.getD_some] at hb
    refine ⟨members, ?_, hb⟩
    rw [union?] at hm
    split at hm <;> simp_all
  · rintro ⟨members, ha, hb⟩
    simp [union?, ha, hb]

theorem union?_eq_none_iff {a : TypeId} {ty : Ty} (h : t.get? a = some ty) :
    t.union? a = none ↔ ty.isUnion = false := by
  cases ty <;> simp [union?, h, Ty.isUnion]

/-- **The members of a union are at the ends of paths through unions.** -/
theorem mem_unionMembers_iff {a m : TypeId} :
    m ∈ t.unionMembers a ↔ t.union? m = none ∧ ReflTransGen t.Member a m := by
  have hpart : t.unions.Part t.ids = t.Member := by
    funext a b
    exact propext unions_part_iff
  rw [unionMembers_eq_expand, Expansion.mem_expand_iff, hpart]
  simp [unions]

/-- The number `a` is not its own apparent type, and `b` is a member of that. -/
def Resolves (t : TypeTable) (a b : TypeId) : Prop :=
  t.apparentType a ≠ a ∧ b ∈ t.unionMembers (t.apparentType a)

/-- All numbers that can stand for something else are fresh to begin with. -/
theorem generics_path_of_resolves {a b c : TypeId} (hb : b ∈ t.unionMembers (t.apparentType a))
    (h : ReflTransGen t.Resolves b c) :
    ReflTransGen (t.generics.Part (t.ids ++ t.listedMembers)) b c := by
  induction h using ReflTransGen.head_induction_on generalizing a with
  | refl => exact .refl
  | head hbd _ ih =>
    have ho : t.generics.opens _ = true := decide_eq_true hbd.1
    exact .head ⟨ho, mem_of_mem_unionMembers hb ho, hbd.2⟩ (ih hbd.2)

/-- **The apparent members are at the ends of paths**, whichever number was opened first. -/
theorem mem_apparentMembers_iff {a m : TypeId} :
    m ∈ t.apparentMembers a ↔ t.apparentType m = m ∧
      ∃ w ∈ t.unionMembers (t.apparentType a), ReflTransGen t.Resolves w m := by
  rw [apparentMembers_eq_expand, Expansion.mem_expand_iff]
  refine and_congr (by simp [generics]) ?_
  constructor
  · rintro ⟨w, hw, hp⟩
    refine ⟨w, hw, ReflTransGen.mono (fun b c hbc => ?_) _ _ hp⟩
    exact ⟨of_decide_eq_true hbc.1, hbc.2.2⟩
  · rintro ⟨w, hw, hp⟩
    rcases Expansion.path_without a (generics_path_of_resolves hw hp) with hp | ⟨w', hw', hp⟩
    · exact ⟨w, hw, hp⟩
    · exact ⟨w', hw', hp⟩

/-! ## Where nothing is known -/

section

variable (hu : t.get? .unknown = some (.primitive .unknown))

include hu

theorem apparentType_unknown : t.apparentType .unknown = .unknown :=
  apparentType_of_not_parameter hu rfl

/-- An apparent type stands for nothing else. -/
theorem apparentType_apparentType (id : TypeId) :
    t.apparentType (t.apparentType id) = t.apparentType id := by
  have hend : ∀ b, t.apparentType (t.followConstraints 0 b) = t.followConstraints 0 b := by
    intro b
    rw [followConstraints]
    split
    next => exact apparentType_unknown hu
    next => exact apparentType_unknown hu
    next => exact apparentType_unknown hu
    next ty hunconstrained hconstrained hty =>
      refine apparentType_of_not_parameter hty ?_
      cases ty with
      | parameter name constraint =>
        cases constraint with
        | none => exact absurd rfl (hunconstrained name)
        | some constraint => exact absurd rfl (hconstrained name constraint)
      | _ => rfl
  rcases t.endsAt_or_circular id with ⟨b, hb⟩ | hc
  · rw [hb.apparentType_eq, hend]
  · rw [hc.apparentType_eq, apparentType_unknown hu]

theorem mem_apparentMembers_apparentType_iff {id m : TypeId} :
    m ∈ t.apparentMembers (t.apparentType id) ↔ m ∈ t.apparentMembers id := by
  rw [mem_apparentMembers_iff, mem_apparentMembers_iff, apparentType_apparentType hu]

theorem unionMembers_unknown : t.unionMembers .unknown = [.unknown] := by
  have hnone : t.union? .unknown = none := (union?_eq_none_iff hu).2 rfl
  rw [unionMembers_eq_expand]
  refine Expansion.expand_eq_self fun id hid => ?_
  rw [List.mem_singleton.1 hid]
  show (t.union? .unknown).isSome = false
  rw [hnone]
  rfl

theorem eq_of_mem_apparentMembers_unknown {m : TypeId} (hm : m ∈ t.apparentMembers .unknown) :
    m = .unknown := by
  obtain ⟨_, w, hw, hpath⟩ := mem_apparentMembers_iff.1 hm
  rw [apparentType_unknown hu, unionMembers_unknown hu] at hw
  obtain rfl := List.mem_singleton.1 hw
  rcases hpath.cases_head with heq | ⟨_, hstep, _⟩
  · exact heq.symm
  · exact absurd (apparentType_unknown hu) hstep.1

theorem contains_apparentType (id : TypeId) : t.contains (t.apparentType id) = true := by
  unfold apparentType
  rcases t.followConstraints_mem t.size id with hunknown | hs
  · rw [hunknown]
    exact contains_iff.2 ⟨_, hu⟩
  · exact contains_iff.2 (Option.isSome_iff_exists.1 hs)

end

/-! ## Leaves in a well-formed table -/

/-- What a walk from `a` can meet: it is reached, or it is the `unknown` of a chain that leads
nowhere. -/
def Met (t : TypeTable) (a b : TypeId) : Prop :=
  t.Reaches a b ∨ b = .unknown ∧ ∃ p, t.Reaches a p ∧ t.LeadsNowhere p

namespace WellFormed

theorem contains_of_standsFor (h : t.WellFormed) {a b : TypeId} (hab : t.StandsFor a b) :
    t.contains b = true := by
  rcases hab with ⟨members, ha, hb⟩ | ⟨name, ha⟩
  · exact h.mentioned ha (.member hb)
  · exact h.mentioned ha (.constraint name b)

theorem contains_of_reaches (h : t.WellFormed) {a b : TypeId} (ha : t.contains a = true)
    (hab : t.Reaches a b) : t.contains b = true := by
  rcases hab.cases_tail with rfl | ⟨c, _, hc⟩
  · exact ha
  · exact h.contains_of_standsFor hc

theorem apparentType_unknown (h : t.WellFormed) : t.apparentType .unknown = .unknown :=
  TypeTable.apparentType_unknown (h.primitive .unknown)

theorem unionMembers_unknown (h : t.WellFormed) {m : TypeId} (hm : m ∈ t.unionMembers .unknown) :
    m = .unknown := by
  rw [TypeTable.unionMembers_unknown (h.primitive .unknown)] at hm
  exact List.mem_singleton.1 hm

/-- The apparent type is an entry at the end of a chain, or the chain leads nowhere. -/
theorem apparentType_cases (h : t.WellFormed) {a : TypeId} (ha : t.contains a = true) :
    (ReflTransGen t.Constraint a (t.apparentType a) ∧
      ∃ ty, t.get? (t.apparentType a) = some ty ∧ ty.isParameter = false) ∨
    (t.apparentType a = .unknown ∧ ∃ b, ReflTransGen t.Constraint a b ∧ t.LeadsNowhere b) := by
  rcases t.endsAt_or_circular a with ⟨b, hb⟩ | hc
  · obtain ⟨ty, hty⟩ := contains_iff.1 (h.contains_of_reaches ha (reaches_of_constraints hb.1))
    have heq := hb.apparentType_eq
    rw [followConstraints, hty] at heq
    cases ty with
    | parameter name constraint =>
      cases constraint with
      | none => exact Or.inr ⟨heq, b, hb.1, Or.inl ⟨name, hty⟩⟩
      | some c => exact absurd ⟨name, hty⟩ (hb.2 c)
    | _ => exact Or.inl ⟨by rw [heq]; exact hb.1, _, by rw [heq]; exact hty, rfl⟩
  · exact Or.inr ⟨hc.apparentType_eq, a, .refl, Or.inr hc⟩

/-- Only entries that are no parameters are their own apparent types. -/
theorem exists_of_apparentType_eq (h : t.WellFormed) {m : TypeId} (hc : t.contains m = true)
    (hm : t.apparentType m = m) : ∃ ty, t.get? m = some ty ∧ ty.isParameter = false := by
  rcases h.apparentType_cases hc with ⟨_, hty⟩ | ⟨hu, _⟩
  · rwa [hm] at hty
  · rw [← hm, hu]
    exact ⟨_, h.primitive .unknown, rfl⟩

theorem met_of_mem_unionMembers (h : t.WellFormed) {a b c : TypeId} (ha : t.contains a = true)
    (hab : t.Reaches a b) (hc : c ∈ t.unionMembers (t.apparentType b)) : t.Met a c := by
  rcases h.apparentType_cases (h.contains_of_reaches ha hab) with ⟨hp, _⟩ | ⟨hu, p, hp, hn⟩
  · have hmembers : t.Reaches (t.apparentType b) c :=
      ReflTransGen.mono (fun _ _ => Or.inl) _ _ (mem_unionMembers_iff.1 hc).2
    exact Or.inl ((hab.trans (reaches_of_constraints hp)).trans hmembers)
  · rw [hu] at hc
    exact Or.inr ⟨h.unionMembers_unknown hc, p, hab.trans (reaches_of_constraints hp), hn⟩

theorem met_of_path (h : t.WellFormed) {a w m : TypeId} (ha : t.contains a = true)
    (hw : t.Met a w) (hp : ReflTransGen t.Resolves w m) : t.Met a m := by
  induction hp with
  | refl => exact hw
  | tail _ hbc ih =>
    rcases ih with hab | ⟨rfl, _⟩
    · exact h.met_of_mem_unionMembers ha hab hbc.2
    · exact absurd h.apparentType_unknown hbc.1

theorem leaf_of_mem_apparentMembers (h : t.WellFormed) {a m : TypeId} (ha : t.contains a = true)
    (hm : m ∈ t.apparentMembers a) : t.Leaf a m := by
  obtain ⟨hself, w, hw, hp⟩ := mem_apparentMembers_iff.1 hm
  have hunion : t.union? m = none := by
    rcases hp.cases_tail with rfl | ⟨b, _, hb⟩
    · exact (mem_unionMembers_iff.1 hw).1
    · exact (mem_unionMembers_iff.1 hb.2).1
  rcases h.met_of_path ha (h.met_of_mem_unionMembers ha .refl hw) hp with hr | ⟨rfl, p, hr, hn⟩
  · obtain ⟨ty, hty, hpar⟩ := h.exists_of_apparentType_eq (h.contains_of_reaches ha hr) hself
    exact .entry hr hty ((union?_eq_none_iff hty).1 hunion) hpar
  · exact .unknown hr hn

/-- **A step adds apparent members and loses none**, whether or not it goes round. -/
theorem mem_apparentMembers_of_standsFor (h : t.WellFormed) {a b m : TypeId}
    (hab : t.StandsFor a b) (hm : m ∈ t.apparentMembers b) : m ∈ t.apparentMembers a := by
  obtain ⟨hself, w, hw, hp⟩ := mem_apparentMembers_iff.1 hm
  refine mem_apparentMembers_iff.2 ⟨hself, ?_⟩
  rcases hab with hmem | hcon
  · have haa : t.apparentType a = a := by
      obtain ⟨members, ha, _⟩ := hmem
      exact apparentType_of_not_parameter ha rfl
    obtain ⟨ty, hty⟩ := contains_iff.1 (h.contains_of_standsFor (Or.inl hmem))
    by_cases hb : t.apparentType b = b
    · -- the walk through unions goes on from `b`
      rw [hb] at hw
      obtain ⟨hwu, hpath⟩ := mem_unionMembers_iff.1 hw
      exact ⟨w, haa.symm ▸ mem_unionMembers_iff.2 ⟨hwu, .head hmem hpath⟩, hp⟩
    · -- it stops at the parameter `b`, which is then resolved
      have hbu : t.union? b = none := by
        rw [union?_eq_none_iff hty]
        cases ty with
        | union members => exact absurd (apparentType_of_not_parameter hty rfl) hb
        | _ => rfl
      exact ⟨b, haa.symm ▸ mem_unionMembers_iff.2 ⟨hbu, .single hmem⟩, .head ⟨hb, hw⟩ hp⟩
  · exact ⟨w, hcon.apparentType_eq ▸ hw, hp⟩

theorem mem_apparentMembers_of_reaches (h : t.WellFormed) {a b m : TypeId} (hab : t.Reaches a b)
    (hm : m ∈ t.apparentMembers b) : m ∈ t.apparentMembers a := by
  induction hab using ReflTransGen.head_induction_on with
  | refl => exact hm
  | head hac _ ih => exact h.mem_apparentMembers_of_standsFor hac ih

theorem mem_apparentMembers_of_leaf (h : t.WellFormed) {a m : TypeId} (hm : t.Leaf a m) :
    m ∈ t.apparentMembers a := by
  cases hm with
  | @entry _ ty hr hty hu hp =>
    have hself := apparentType_of_not_parameter hty hp
    have hw : m ∈ t.unionMembers (t.apparentType m) := by
      rw [hself]
      exact mem_unionMembers_iff.2 ⟨(union?_eq_none_iff hty).2 hu, .refl⟩
    exact h.mem_apparentMembers_of_reaches hr (mem_apparentMembers_iff.2 ⟨hself, m, hw, .refl⟩)
  | @unknown p hr hp =>
    have hw : TypeId.unknown ∈ t.unionMembers (t.apparentType p) := by
      rw [hp.apparentType_eq]
      exact mem_unionMembers_iff.2 ⟨(union?_eq_none_iff (h.primitive .unknown)).2 rfl, .refl⟩
    exact h.mem_apparentMembers_of_reaches hr
      (mem_apparentMembers_iff.2 ⟨h.apparentType_unknown, _, hw, .refl⟩)

/-- **In a well-formed table the apparent members are the leaves.** -/
theorem mem_apparentMembers_iff_leaf (h : t.WellFormed) {a m : TypeId}
    (ha : t.contains a = true) : m ∈ t.apparentMembers a ↔ t.Leaf a m :=
  ⟨h.leaf_of_mem_apparentMembers ha, h.mem_apparentMembers_of_leaf⟩

end WellFormed

/-! ## Leaves from one step to the next -/

theorem standsFor_union_iff {u x : TypeId} {members : List TypeId}
    (hu : t.get? u = some (.union members)) : t.StandsFor u x ↔ x ∈ members := by
  simp [StandsFor, Member, Constraint, hu]

theorem standsFor_constraint_iff {a c x : TypeId} (hc : t.Constraint a c) :
    t.StandsFor a x ↔ x = c := by
  obtain ⟨name, ha⟩ := hc
  simp [StandsFor, Member, Constraint, ha, eq_comm]

theorem not_standsFor_unconstrained {a x : TypeId} {name : String}
    (ha : t.get? a = some (.parameter name none)) : ¬ t.StandsFor a x := by
  simp [StandsFor, Member, Constraint, ha]

/-- The leaves of a number that is no leaf itself are those of the numbers that it stands for. -/
theorem leaf_iff_of_step {a m : TypeId}
    (hentry : ∀ ty, t.get? a = some ty → ty.isUnion = true ∨ ty.isParameter = true)
    (hnowhere : t.LeadsNowhere a → ∃ b, t.StandsFor a b ∧ t.Leaf b .unknown) :
    t.Leaf a m ↔ ∃ b, t.StandsFor a b ∧ t.Leaf b m := by
  constructor
  · intro h
    cases h with
    | @entry _ ty hr hm hu hp =>
      rcases hr.cases_head with rfl | ⟨b, hab, hbm⟩
      · rcases hentry ty hm with h | h <;> simp_all
      · exact ⟨b, hab, .entry hbm hm hu hp⟩
    | unknown hr hp =>
      rcases hr.cases_head with rfl | ⟨b, hab, hbp⟩
      · exact hnowhere hp
      · exact ⟨b, hab, .unknown hbp hp⟩
  · rintro ⟨b, hab, h⟩
    cases h with
    | entry hr hm hu hp => exact .entry (.head hab hr) hm hu hp
    | unknown hr hp => exact .unknown (.head hab hr) hp

theorem leaf_union_iff {u m : TypeId} {members : List TypeId}
    (hu : t.get? u = some (.union members)) : t.Leaf u m ↔ ∃ x ∈ members, t.Leaf x m := by
  rw [leaf_iff_of_step]
  · simp only [standsFor_union_iff hu]
  · intro ty hty
    rw [hu] at hty
    cases hty
    exact Or.inl rfl
  · rintro (⟨name, h⟩ | h)
    · rw [hu] at h
      cases h
    · obtain ⟨b, ⟨name, hb⟩, _⟩ := h.exists_constraint
      rw [hu] at hb
      cases hb

theorem leaf_constraint_iff {a c m : TypeId} (hc : t.Constraint a c) :
    t.Leaf a m ↔ t.Leaf c m := by
  rw [leaf_iff_of_step]
  · simp [standsFor_constraint_iff hc]
  · intro ty hty
    obtain ⟨name, ha⟩ := hc
    rw [ha] at hty
    cases hty
    exact Or.inr rfl
  · rintro (⟨name, h⟩ | h)
    · obtain ⟨name', ha⟩ := hc
      rw [ha] at h
      cases h
    · obtain ⟨b, hb, hcirc⟩ := h.exists_constraint
      exact ⟨b, Or.inr hb, .unknown .refl (Or.inr hcirc)⟩

theorem leaf_unconstrained_iff {a m : TypeId} {name : String}
    (ha : t.get? a = some (.parameter name none)) : t.Leaf a m ↔ m = .unknown := by
  constructor
  · intro h
    cases h with
    | entry hr hm hu hp =>
      rcases hr.cases_head with rfl | ⟨b, hab, _⟩
      · rw [ha] at hm
        cases hm
        simp [Ty.isParameter] at hp
      · exact absurd hab (not_standsFor_unconstrained ha)
    | unknown hr hp => rfl
  · rintro rfl
    exact .unknown .refl (Or.inl ⟨name, ha⟩)

end ResultLint.TypeTable
