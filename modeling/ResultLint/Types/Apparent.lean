import ResultLint.Types.Expansion
import ResultLint.Types.Table

/-!
# What a type amounts to

A type parameter amounts to its constraint, a union to its members.  Both may lead round a cycle.  A
constraint that leads nowhere amounts to `unknown`, and a union inside itself adds nothing.
-/

namespace ResultLint

namespace TypeTable

/-- The end of the chain of constraints from `id`, through at most that many parameters. -/
def followConstraints (t : TypeTable) (steps : Nat) (id : TypeId) : TypeId :=
  match t.get? id with
  | none => .unknown
  | some (.parameter _ none) => .unknown
  | some (.parameter _ (some constraint)) =>
    match steps with
    | 0 => .unknown
    | steps + 1 => followConstraints t steps constraint
  | some _ => id

/-- The type that a parameter is constrained to, and any other type itself.  Without constraint,
round a cycle and outside the table it is `unknown`.  A chain through more parameters than the table
has entries is one round a cycle. -/
def apparentType (t : TypeTable) (id : TypeId) : TypeId := t.followConstraints t.size id

/-- Outside the table everything is `unknown`. -/
theorem followConstraints_of_get?_eq_none {t : TypeTable} {id : TypeId} (h : t.get? id = none)
    (steps : Nat) : t.followConstraints steps id = .unknown := by
  cases steps <;> simp [followConstraints, h]

/-- A chain of constraints ends in the table or at `unknown`. -/
theorem followConstraints_mem (t : TypeTable) (steps : Nat) (id : TypeId) :
    t.followConstraints steps id = .unknown ∨
      (t.get? (t.followConstraints steps id)).isSome = true := by
  induction steps generalizing id with
  | zero =>
    rw [followConstraints]
    split <;> simp_all
  | succ steps ih =>
    rw [followConstraints]
    split
    · exact .inl rfl
    · exact .inl rfl
    · exact ih _
    · simp_all

theorem mem_ids {t : TypeTable} {id : TypeId} : id ∈ t.ids ↔ (t.get? id).isSome = true := by
  cases id
  simp [ids, get?, size]

theorem length_ids (t : TypeTable) : t.ids.length = t.size := by simp [ids]

/-! ### Unions -/

/-- The members that a union lists. -/
def union? (t : TypeTable) (id : TypeId) : Option (List TypeId) :=
  match t.get? id with
  | some (.union members) => some members
  | _ => none

/-- A union stands for the members that it lists. -/
def unions (t : TypeTable) : Expansion where
  opens id := (t.union? id).isSome
  parts id := (t.union? id).getD []

/-- The members of a union, of unions among them, and so on.  Any other type is its only member. -/
def unionMembers (t : TypeTable) (id : TypeId) : List TypeId :=
  if t.unions.opens id then (t.unions.collect t.size ∅ [id] #[]).toList else [id]

theorem mem_ids_of_isSome_union? {t : TypeTable} {id : TypeId} (h : (t.union? id).isSome = true) :
    id ∈ t.ids := by
  rw [mem_ids]
  rw [union?] at h
  split at h <;> simp_all

theorem unionMembers_eq_expand (t : TypeTable) (id : TypeId) :
    t.unionMembers id = t.unions.expand t.ids [id] := by
  rw [unionMembers]
  split
  · rw [t.unions.toList_collect (fun _ => True) (by simp) t.ids (by simp)
      (Nat.le_of_eq t.length_ids)
      fun other _ opens => by simpa using mem_ids_of_isSome_union? opens]
    simp
  next h => exact (Expansion.expand_eq_self (by simpa using h)).symm

/-! ### Unions and parameters -/

/-- All numbers that a union lists. -/
def listedMembers (t : TypeTable) : List TypeId :=
  t.entries.toList.flatMap fun
    | .union members => members
    | _ => []

/-- A number that is not its own apparent type stands for the members of that. -/
def generics (t : TypeTable) : Expansion where
  opens id := t.apparentType id ≠ id
  parts id := t.unionMembers (t.apparentType id)

/-- The types that `id` amounts to when parameters and unions are both resolved, in the order in
which they are met. -/
def apparentMembers (t : TypeTable) (id : TypeId) : List TypeId :=
  let members := t.unionMembers (t.apparentType id)
  if members.any t.generics.opens then
    (t.generics.collect (t.size + t.listedMembers.length) {id} members #[]).toList
  else members

theorem mem_listedMembers {t : TypeTable} {id whole : TypeId} (h : id ∈ t.unions.parts whole) :
    id ∈ t.listedMembers := by
  simp only [unions, union?] at h
  split at h
  next members found =>
    rw [listedMembers, List.mem_flatMap]
    exact ⟨.union members, Array.mem_toList_iff.2 (Array.mem_of_getElem? found), h⟩
  next => simp at h

/-- A member of what something amounts to has a place among the numbers of the table, if it stands
for something else. -/
theorem mem_of_mem_unionMembers {t : TypeTable} {id member : TypeId}
    (h : member ∈ t.unionMembers (t.apparentType id)) (opens : t.generics.opens member = true) :
    member ∈ t.ids ++ t.listedMembers := by
  rw [unionMembers_eq_expand] at h
  rcases Expansion.mem_expand h with h | ⟨whole, -, h⟩
  · obtain rfl := List.mem_singleton.1 h
    refine List.mem_append_left _ (mem_ids.2 ?_)
    rcases t.followConstraints_mem t.size id with missing | found
    · rw [apparentType, missing] at opens ⊢
      cases entry : t.get? .unknown with
      | none => simp [generics, apparentType, followConstraints_of_get?_eq_none entry] at opens
      | some _ => rfl
    · exact found
  · exact List.mem_append_right _ (mem_listedMembers h)

theorem apparentMembers_eq_expand (t : TypeTable) (id : TypeId) :
    t.apparentMembers id =
      t.generics.expand (Expansion.without (t.ids ++ t.listedMembers) id)
        (t.unionMembers (t.apparentType id)) := by
  rw [apparentMembers]
  split
  · rw [t.generics.toList_collect
      (fun member => t.generics.opens member = true → member ∈ t.ids ++ t.listedMembers)
      (fun _ _ _ h => mem_of_mem_unionMembers h)
      (Expansion.without (t.ids ++ t.listedMembers) id)
      (fun _ h => mem_of_mem_unionMembers h)
      (Nat.le_trans (List.length_filter_le _ _) (by simp [length_ids]))
      fun member met opens => by
        rw [Expansion.mem_without, Std.HashSet.singleton_eq_insert, Std.HashSet.mem_insert,
          beq_iff_eq, @eq_comm _ id, or_iff_left Std.HashSet.not_mem_empty]
        exact and_iff_right (met opens)]
    simp
  next h => exact (Expansion.expand_eq_self (by simpa using h)).symm

end TypeTable

end ResultLint
