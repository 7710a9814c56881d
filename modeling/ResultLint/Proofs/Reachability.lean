import Mathlib.Logic.Relation
import ResultLint.Types.Expansion

/-!
# What an expansion finds

`Expansion.expand` opens every number once and so depends on all that it has opened before.  What it
finds does not: `mem_expand_iff` says that these are the numbers that do not open and to which a
path leads from the worklist.

The step is `Expansion.path_without`.  A path that runs through an opened number can start anew
behind the last place where it does, among the parts of that number, which are in the worklist by
then.
-/

namespace ResultLint.Expansion

open Relation (ReflTransGen)

/-- `a` opens while it is fresh, and `b` is one of its parts. -/
def Part (e : Expansion) (fresh : List TypeId) (a b : TypeId) : Prop :=
  e.opens a = true ∧ a ∈ fresh ∧ b ∈ e.parts a

/-- A path is still there when more numbers are fresh. -/
theorem path_mono {e : Expansion} {fresh more : List TypeId} (h : ∀ a ∈ fresh, a ∈ more)
    {a b : TypeId} (hp : ReflTransGen (e.Part fresh) a b) : ReflTransGen (e.Part more) a b :=
  ReflTransGen.mono (fun a _ hab => ⟨hab.1, h a hab.2.1, hab.2.2⟩) _ _ hp

/-- **A path avoids a number or starts anew behind it.** -/
theorem path_without {e : Expansion} {fresh : List TypeId} (id : TypeId) {a b : TypeId}
    (h : ReflTransGen (e.Part fresh) a b) :
    ReflTransGen (e.Part (without fresh id)) a b ∨
      ∃ part ∈ e.parts id, ReflTransGen (e.Part (without fresh id)) part b := by
  induction h using ReflTransGen.head_induction_on with
  | refl => exact Or.inl .refl
  | @head a c hac _ ih =>
    rcases ih with hcb | hid
    · by_cases ha : a = id
      · subst ha
        exact Or.inr ⟨c, hac.2.2, hcb⟩
      · have hac' : e.Part (without fresh id) a c :=
          ⟨hac.1, mem_without.2 ⟨hac.2.1, ha⟩, hac.2.2⟩
        exact Or.inl (.head hac' hcb)
    · exact Or.inr hid

/-- A path from a number that does not open, or is not fresh, goes nowhere. -/
theorem path_eq_of_not_part {e : Expansion} {fresh : List TypeId} {a b : TypeId}
    (h : ∀ c, ¬ e.Part fresh a c) (hp : ReflTransGen (e.Part fresh) a b) : b = a := by
  rcases hp.cases_head with rfl | ⟨c, hac, _⟩
  · rfl
  · exact absurd hac (h c)

/-- **An expansion finds what paths lead to.** -/
theorem mem_expand_iff {e : Expansion} {fresh work : List TypeId} {m : TypeId} :
    m ∈ e.expand fresh work ↔
      e.opens m = false ∧ ∃ w ∈ work, ReflTransGen (e.Part fresh) w m := by
  fun_induction expand e fresh work with
  | case1 => simp
  | case2 fresh id rest ho hf ih =>
    rw [ih]
    refine and_congr_right fun hm => ?_
    have hmono : ∀ a ∈ without fresh id, a ∈ fresh := fun a ha => (mem_without.1 ha).1
    constructor
    · rintro ⟨w, hw, hp⟩
      rcases List.mem_append.1 hw with hw | hw
      · exact ⟨id, List.mem_cons_self, .head ⟨ho, hf, hw⟩ (path_mono hmono hp)⟩
      · exact ⟨w, List.mem_cons_of_mem id hw, path_mono hmono hp⟩
    · rintro ⟨w, hw, hp⟩
      rcases path_without id hp with hp | ⟨part, hpart, hp⟩
      · rcases List.mem_cons.1 hw with rfl | hw
        · -- `w` itself is no longer fresh, so the path stops there, at a number that opens
          have he : m = w := path_eq_of_not_part (fun c hc => (mem_without.1 hc.2.1).2 rfl) hp
          rw [he, ho] at hm
          exact absurd hm (by decide)
        · exact ⟨w, List.mem_append_right _ hw, hp⟩
      · exact ⟨part, List.mem_append_left _ hpart, hp⟩
  | case3 fresh id rest ho hf ih =>
    rw [ih]
    refine and_congr_right fun hm => ?_
    constructor
    · rintro ⟨w, hw, hp⟩
      exact ⟨w, List.mem_cons_of_mem id hw, hp⟩
    · rintro ⟨w, hw, hp⟩
      rcases List.mem_cons.1 hw with rfl | hw
      · have he : m = w := path_eq_of_not_part (fun c hc => hf hc.2.1) hp
        rw [he, ho] at hm
        exact absurd hm (by decide)
      · exact ⟨w, hw, hp⟩
  | case4 fresh id rest hc ih =>
    rw [List.mem_cons, ih]
    constructor
    · rintro (rfl | ⟨hm, w, hw, hp⟩)
      · exact ⟨by simpa using hc, m, List.mem_cons_self, .refl⟩
      · exact ⟨hm, w, List.mem_cons_of_mem id hw, hp⟩
    · rintro ⟨hm, w, hw, hp⟩
      rcases List.mem_cons.1 hw with rfl | hw
      · exact Or.inl (path_eq_of_not_part (fun c h => hc h.1) hp)
      · exact Or.inr ⟨hm, w, hw, hp⟩

end ResultLint.Expansion
