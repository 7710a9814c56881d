import ResultLint.Types.Basic
import Std.Data.HashSet

/-!
# Numbers that stand for others

A union stands for its members and a type parameter for what is behind its constraint.  Either may
lead back to itself, so a number is opened once and adds nothing when it is met again.

`Expansion.expand` says what a worklist stands for: it carries the numbers that are still fresh.
`Expansion.collect` finds the same from the numbers that are already open, which are fewer.
-/

namespace ResultLint

/-- Which numbers stand for others, and for which. -/
structure Expansion where
  opens : TypeId → Bool
  parts : TypeId → List TypeId

namespace Expansion

/-- The numbers other than `id`. -/
def without (ids : List TypeId) (id : TypeId) : List TypeId := ids.filter (· ≠ id)

theorem mem_without {ids : List TypeId} {id other : TypeId} :
    other ∈ without ids id ↔ other ∈ ids ∧ other ≠ id := by
  simp [without]

theorem length_without_lt {ids : List TypeId} {id : TypeId} (h : id ∈ ids) :
    (without ids id).length < ids.length :=
  List.length_filter_lt_length_iff_exists.2 ⟨id, h, by simp⟩

/-- Depth-first expansion of a worklist: a number that opens stands for its parts, once, while it is
fresh, and any other number stands for itself. -/
def expand (e : Expansion) (fresh : List TypeId) : List TypeId → List TypeId
  | [] => []
  | id :: rest =>
    if e.opens id then
      if id ∈ fresh then expand e (without fresh id) (e.parts id ++ rest)
      else expand e fresh rest
    else id :: expand e fresh rest
termination_by work => (fresh.length, work.length)
decreasing_by
  · exact Prod.Lex.left _ _ (length_without_lt ‹_›)
  · exact Prod.Lex.right _ (by simp)
  · exact Prod.Lex.right _ (by simp)

/-- Numbers that do not open stand for themselves. -/
theorem expand_eq_self {e : Expansion} {fresh work : List TypeId}
    (h : ∀ id ∈ work, e.opens id = false) : e.expand fresh work = work := by
  induction work with
  | nil => rw [expand]
  | cons id rest ih =>
    rw [expand, h id List.mem_cons_self]
    exact congrArg (id :: ·) (ih fun i hi => h i (List.mem_cons_of_mem id hi))

/-- What a worklist stands for is in it or a part. -/
theorem mem_expand {e : Expansion} {fresh work : List TypeId} {id : TypeId}
    (h : id ∈ e.expand fresh work) :
    id ∈ work ∨ ∃ whole, e.opens whole = true ∧ id ∈ e.parts whole := by
  fun_induction expand e fresh work with
  | case1 => simp at h
  | case2 fresh first rest opens _ ih =>
    rcases ih h with hw | hw
    · rcases List.mem_append.1 hw with hp | hr
      · exact .inr ⟨first, opens, hp⟩
      · exact .inl (List.mem_cons_of_mem _ hr)
    · exact .inr hw
  | case3 fresh first rest _ _ ih => exact (ih h).imp_left (List.mem_cons_of_mem _)
  | case4 fresh first rest _ ih =>
    rcases List.mem_cons.1 h with rfl | h
    · exact .inl List.mem_cons_self
    · exact (ih h).imp_left (List.mem_cons_of_mem _)

/-- The expansion of a worklist, after what was `found` before.  At most `room` numbers are opened
besides those that are open already. -/
def collect (e : Expansion) (room : Nat) (opened : Std.HashSet TypeId) (work : List TypeId)
    (found : Array TypeId) : Array TypeId :=
  match work with
  | [] => found
  | id :: rest =>
    if e.opens id then
      if opened.contains id then collect e room opened rest found
      else
        match room with
        | 0 => found
        | room + 1 => collect e room (opened.insert id) (e.parts id ++ rest) found
    else collect e room opened rest (found.push id)
termination_by (room, work.length)
decreasing_by
  · exact Prod.Lex.right _ (by simp)
  · exact Prod.Lex.left _ _ (by simp)
  · exact Prod.Lex.right _ (by simp)

/-- The two expansions agree if there is room for all fresh numbers, and the numbers that can be met
are fresh as long as they are not open. -/
theorem toList_collect (e : Expansion) (Met : TypeId → Prop)
    (parts : ∀ id, e.opens id = true → ∀ part ∈ e.parts id, Met part)
    (fresh : List TypeId) {work : List TypeId} (met : ∀ id ∈ work, Met id) {room : Nat}
    {opened : Std.HashSet TypeId} {found : Array TypeId} (enough : fresh.length ≤ room)
    (fresh_iff : ∀ id, Met id → e.opens id = true → (id ∈ fresh ↔ id ∉ opened)) :
    (e.collect room opened work found).toList = found.toList ++ e.expand fresh work := by
  fun_induction expand e fresh work generalizing room opened found with
  | case1 => simp [collect]
  | case2 fresh id rest opens isFresh ih =>
    have notOpen : id ∉ opened := (fresh_iff id (met id List.mem_cons_self) opens).1 isFresh
    have shorter := length_without_lt isFresh
    obtain ⟨room, rfl⟩ : ∃ n, room = n + 1 := ⟨room - 1, by omega⟩
    rw [collect, if_pos opens, if_neg (by simpa using notOpen)]
    refine ih (fun other h => ?_) (by omega) (fun other hm ho => ?_)
    · rcases List.mem_append.1 h with hp | hr
      · exact parts id opens other hp
      · exact met other (List.mem_cons_of_mem _ hr)
    · rw [mem_without, Std.HashSet.mem_insert, fresh_iff other hm ho, beq_iff_eq, not_or, and_comm,
        eq_comm]
  | case3 fresh id rest opens notFresh ih =>
    have isOpen : id ∈ opened := by
      simpa using mt (fresh_iff id (met id List.mem_cons_self) opens).2 notFresh
    rw [collect.eq_def]
    simp only [opens, ↓reduceIte, Std.HashSet.contains_iff_mem.2 isOpen]
    exact ih (fun other h => met other (List.mem_cons_of_mem _ h)) enough fresh_iff
  | case4 fresh id rest closed ih =>
    rw [collect.eq_def]
    simp only [closed, Bool.false_eq_true, ↓reduceIte]
    rw [ih (fun other h => met other (List.mem_cons_of_mem _ h)) enough fresh_iff]
    simp

end Expansion

end ResultLint
