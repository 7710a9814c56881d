import Mathlib.Data.Fintype.Pigeonhole
import Mathlib.Logic.Relation
import ResultLint.Types.Apparent

/-!
# Chains of constraints

The constraint of a parameter may be a parameter again, and so on; a chain may also lead out of the
table or round a cycle.  `TypeTable.followConstraints` follows it for as many steps as the table has
entries.

* `followConstraints_cases`: a chain comes to an end, or it is longer than it was followed.
* `circular_of_long`: **a chain longer than the table goes round.**
* `EndsAt.apparentType_eq`, `Circular.apparentType_eq`: what the apparent type is in the two cases.
* `Constraint.apparentType_eq`: a parameter has the apparent type of its constraint.
-/

namespace ResultLint

def Ty.isParameter : Ty → Bool
  | parameter _ _ => true
  | _ => false

namespace TypeTable

open Relation (ReflTransGen TransGen)

variable {t : TypeTable}

/-- `b` is the constraint of the parameter `a`. -/
def Constraint (t : TypeTable) (a b : TypeId) : Prop :=
  ∃ name, t.get? a = some (.parameter name (some b))

/-- The chain of constraints from `a` ends at `b`. -/
def EndsAt (t : TypeTable) (a b : TypeId) : Prop :=
  ReflTransGen t.Constraint a b ∧ ∀ c, ¬ t.Constraint b c

/-- The chain of constraints from `a` goes round a cycle. -/
def Circular (t : TypeTable) (a : TypeId) : Prop :=
  ∃ b, ReflTransGen t.Constraint a b ∧ TransGen t.Constraint b b

/-- A parameter without constraint, or one whose constraints only go round. -/
def LeadsNowhere (t : TypeTable) (a : TypeId) : Prop :=
  (∃ name, t.get? a = some (.parameter name none)) ∨ t.Circular a

/-! ## Ends and cycles -/

theorem constraint_rightUnique : Relator.RightUnique t.Constraint := by
  rintro a b c ⟨n, hb⟩ ⟨n', hc⟩
  rw [hb] at hc
  simp_all

theorem Constraint.mem {a b : TypeId} (h : t.Constraint a b) : a.index < t.size :=
  (Array.getElem?_eq_some_iff.1 h.choose_spec).1

/-- Whoever is on a cycle stays on it. -/
theorem cycle_of_path {a b : TypeId} (hc : TransGen t.Constraint a a)
    (hp : ReflTransGen t.Constraint a b) : TransGen t.Constraint b b := by
  induction hp with
  | refl => exact hc
  | @tail b c _ hbc ih =>
    obtain ⟨d, hbd, hdb⟩ := TransGen.head'_iff.1 ih
    obtain rfl := constraint_rightUnique hbd hbc
    exact .tail' hdb hbc

theorem EndsAt.eq_of_path {a b c : TypeId} (h : t.EndsAt a b)
    (hp : ReflTransGen t.Constraint b c) : c = b := by
  rcases hp.cases_head with rfl | ⟨d, hd, _⟩
  · rfl
  · exact absurd hd (h.2 d)

theorem EndsAt.unique {a b c : TypeId} (hb : t.EndsAt a b) (hc : t.EndsAt a c) : b = c := by
  rcases hb.1.total_of_right_unique constraint_rightUnique hc.1 with h | h
  · exact (hb.eq_of_path h).symm
  · exact hc.eq_of_path h

theorem EndsAt.not_circular {a b : TypeId} (h : t.EndsAt a b) : ¬ t.Circular a := by
  rintro ⟨c, hac, hc⟩
  have hb : TransGen t.Constraint b b := by
    rcases h.1.total_of_right_unique constraint_rightUnique hac with hp | hp
    · exact h.eq_of_path hp ▸ hc
    · exact cycle_of_path hc hp
  obtain ⟨d, hd, _⟩ := TransGen.head'_iff.1 hb
  exact h.2 d hd

/-- A cycle of constraints is entered by a first step. -/
theorem Circular.exists_constraint {a : TypeId} (h : t.Circular a) :
    ∃ b, t.Constraint a b ∧ t.Circular b := by
  obtain ⟨c, hac, hc⟩ := h
  rcases hac.cases_head with rfl | ⟨b, hab, hbc⟩
  · obtain ⟨b, hab, hba⟩ := TransGen.head'_iff.1 hc
    exact ⟨b, hab, a, hba, hc⟩
  · exact ⟨b, hab, c, hbc, hc⟩

/-! ## Following a chain -/

theorem followConstraints_of_constraint {a b : TypeId} (h : t.Constraint a b) (steps : Nat) :
    t.followConstraints (steps + 1) a = t.followConstraints steps b := by
  obtain ⟨name, h⟩ := h
  rw [followConstraints, h]

theorem followConstraints_of_end {a : TypeId} (h : ∀ b, ¬ t.Constraint a b) (steps : Nat) :
    t.followConstraints steps a = t.followConstraints 0 a := by
  cases steps with
  | zero => rfl
  | succ steps =>
    rw [followConstraints, followConstraints]
    split
    · rfl
    · rfl
    next name b hb => exact absurd ⟨name, hb⟩ (h b)
    · rfl

/-- **A chain of constraints ends, or it is longer than it was followed.** -/
theorem followConstraints_cases (t : TypeTable) (steps : Nat) (a : TypeId) :
    (∃ b, t.EndsAt a b ∧ t.followConstraints steps a = t.followConstraints 0 b) ∨
      (t.followConstraints steps a = .unknown ∧
        ∃ f : Nat → TypeId, f 0 = a ∧ ∀ k ≤ steps, t.Constraint (f k) (f (k + 1))) := by
  by_cases ha : ∀ b, ¬ t.Constraint a b
  · exact Or.inl ⟨a, ⟨.refl, ha⟩, followConstraints_of_end ha steps⟩
  · obtain ⟨b, hab⟩ := not_forall_not.1 ha
    match steps with
    | 0 =>
      refine Or.inr ⟨?_, fun k => if k = 0 then a else b, rfl, fun k hk => ?_⟩
      · obtain ⟨name, h⟩ := hab
        rw [followConstraints, h]
      · obtain rfl : k = 0 := by omega
        exact hab
    | steps + 1 =>
      rw [followConstraints_of_constraint hab]
      rcases followConstraints_cases t steps b with ⟨c, hc, he⟩ | ⟨he, f, rfl, hf⟩
      · exact Or.inl ⟨c, ⟨.head hab hc.1, hc.2⟩, he⟩
      · refine Or.inr ⟨he, fun k => if k = 0 then a else f (k - 1), rfl, fun k hk => ?_⟩
        cases k with
        | zero => exact hab
        | succ k => simpa using hf k (by omega)

theorem path_of_chain {f : Nat → TypeId} {n : Nat}
    (hf : ∀ k ≤ n, t.Constraint (f k) (f (k + 1))) {i j : Nat} (hij : i ≤ j) (hj : j ≤ n + 1) :
    ReflTransGen t.Constraint (f i) (f j) := by
  induction j, hij using Nat.le_induction with
  | base => exact .refl
  | succ j hij ih => exact (ih (by omega)).tail (hf j (by omega))

/-- **Longer than the table means round a cycle**: two of the parameters are the same. -/
theorem circular_of_long {f : Nat → TypeId}
    (hf : ∀ k ≤ t.size, t.Constraint (f k) (f (k + 1))) : t.Circular (f 0) := by
  have repeated : ∃ i j, i < j ∧ j ≤ t.size ∧ f i = f j := by
    let g : Fin (t.size + 1) → Fin t.size := fun k => ⟨(f k).index, (hf k (by omega)).mem⟩
    obtain ⟨i, j, hne, he⟩ := Fintype.exists_ne_map_eq_of_card_lt g (by simp)
    have hf' : f i = f j := by
      have := congrArg Fin.val he
      simp only [g] at this
      cases hi : f i
      cases hj : f j
      simp_all
    rcases Nat.lt_or_gt_of_ne (Fin.val_ne_of_ne hne) with h | h
    · exact ⟨i, j, h, by omega, hf'⟩
    · exact ⟨j, i, h, by omega, hf'.symm⟩
  obtain ⟨i, j, hij, hj, he⟩ := repeated
  refine ⟨f i, path_of_chain hf (Nat.zero_le i) (by omega), ?_⟩
  have hround : ReflTransGen t.Constraint (f (i + 1)) (f j) := path_of_chain hf hij (by omega)
  rw [← he] at hround
  exact .head' (hf i (by omega)) hround

theorem endsAt_or_circular (t : TypeTable) (a : TypeId) : (∃ b, t.EndsAt a b) ∨ t.Circular a := by
  rcases t.followConstraints_cases t.size a with ⟨b, hb, _⟩ | ⟨_, f, rfl, hf⟩
  · exact Or.inl ⟨b, hb⟩
  · exact Or.inr (circular_of_long hf)

/-! ## Apparent types -/

theorem EndsAt.apparentType_eq {a b : TypeId} (h : t.EndsAt a b) :
    t.apparentType a = t.followConstraints 0 b := by
  rcases t.followConstraints_cases t.size a with ⟨c, hc, he⟩ | ⟨_, f, rfl, hf⟩
  · rw [apparentType, he, h.unique hc]
  · exact absurd (circular_of_long hf) h.not_circular

theorem Circular.apparentType_eq {a : TypeId} (h : t.Circular a) :
    t.apparentType a = .unknown := by
  rcases t.followConstraints_cases t.size a with ⟨b, hb, _⟩ | ⟨he, _⟩
  · exact absurd h hb.not_circular
  · exact he

theorem apparentType_of_not_parameter {a : TypeId} {ty : Ty} (h : t.get? a = some ty)
    (hp : ty.isParameter = false) : t.apparentType a = a := by
  have hend : t.EndsAt a a := by
    refine ⟨.refl, ?_⟩
    rintro b ⟨name, hb⟩
    rw [h] at hb
    cases hb
    simp [Ty.isParameter] at hp
  rw [hend.apparentType_eq, followConstraints, h]
  cases ty <;> simp_all [Ty.isParameter]

theorem LeadsNowhere.apparentType_eq {a : TypeId} (h : t.LeadsNowhere a) :
    t.apparentType a = .unknown := by
  rcases h with ⟨name, ha⟩ | h
  · have hend : t.EndsAt a a := ⟨.refl, fun b ⟨_, hb⟩ => by simp [ha] at hb⟩
    rw [hend.apparentType_eq, followConstraints, ha]
  · exact h.apparentType_eq

/-- A parameter has the apparent type of its constraint, also round a cycle. -/
theorem Constraint.apparentType_eq {a b : TypeId} (h : t.Constraint a b) :
    t.apparentType a = t.apparentType b := by
  rcases t.endsAt_or_circular b with ⟨c, hc⟩ | ⟨c, hbc, hc⟩
  · have ha : t.EndsAt a c := ⟨.head h hc.1, hc.2⟩
    rw [ha.apparentType_eq, hc.apparentType_eq]
  · have ha : t.Circular a := ⟨c, .head h hbc, hc⟩
    rw [ha.apparentType_eq, Circular.apparentType_eq ⟨c, hbc, hc⟩]

end TypeTable

end ResultLint
