import ResultLint.Proofs.Constraints

/-!
# Walks along constraints

A **walk** along a chain of constraints looks at one number in each round and remembers the
parameters that it has passed, so that it knows when it is back at one of them.  Each round that
does not end the walk passes one more parameter of the table.

* `walkRound_eq_inl`, `walkRound_eq_inr`: what one round does.
* `walkRounds_eq`: **a walk ends where the chain is followed to**, in at most one round more than
  there are parameters left to pass.
* `followConstraints_parameters`: no chain needs to be followed through more parameters than there
  are.
* `apparentType_cases`: a chain settles on a type, stops at an unconstrained parameter, leaves the
  table or goes round.
* `apparentType_rounds`: how many rounds a walk takes, and what each kind of chain ends with.
-/

namespace ResultLint.TypeTable

open Relation (ReflTransGen TransGen)

variable {t : TypeTable}

/-! ## Rounds -/

/-- Where a walk is, and the parameters that it has passed. -/
structure ConstraintWalk where
  current : TypeId
  passed : Std.HashSet TypeId

/-- One round: the type that the walk ends with, or the walk one constraint further on. -/
def walkRound (t : TypeTable) (w : ConstraintWalk) : TypeId ⊕ ConstraintWalk :=
  match t.get? w.current with
  | none => .inl .unknown
  | some (.parameter _ constraint) =>
    if w.passed.contains w.current then .inl .unknown
    else
      match constraint with
      | none => .inl .unknown
      | some next => .inr ⟨next, w.passed.insert w.current⟩
  | some _ => .inl w.current

/-- That many rounds, unless the walk ends before. -/
def walkRounds (t : TypeTable) : Nat → ConstraintWalk → TypeId ⊕ ConstraintWalk
  | 0, w => .inr w
  | rounds + 1, w =>
    match t.walkRound w with
    | .inl answer => .inl answer
    | .inr next => walkRounds t rounds next

/-- A round ends the walk at a type that is no parameter, or where there is no way on. -/
theorem walkRound_eq_inl {w : ConstraintWalk} {answer : TypeId}
    (h : t.walkRound w = .inl answer) :
    (answer = w.current ∧ ∃ ty, t.get? w.current = some ty ∧ ty.isParameter = false) ∨
      answer = .unknown ∧ (t.get? w.current = none ∨
        (∃ name, t.get? w.current = some (.parameter name none)) ∨ w.current ∈ w.passed) := by
  rw [walkRound] at h
  split at h
  next hnone => exact Or.inr ⟨(Sum.inl.inj h).symm, Or.inl hnone⟩
  next name constraint hentry =>
    split at h
    next hagain =>
      exact Or.inr ⟨(Sum.inl.inj h).symm, Or.inr (Or.inr (Std.HashSet.contains_iff_mem.1 hagain))⟩
    next =>
      cases constraint with
      | none => exact Or.inr ⟨(Sum.inl.inj h).symm, Or.inr (Or.inl ⟨name, hentry⟩)⟩
      | some next => cases h
  next ty hother hentry =>
    refine Or.inl ⟨(Sum.inl.inj h).symm, ty, hentry, ?_⟩
    cases ty with
    | parameter name constraint => exact absurd rfl (hother name constraint)
    | _ => rfl

/-- A round goes on only from a parameter that has a constraint and is passed for the first time. -/
theorem walkRound_eq_inr {w next : ConstraintWalk} (h : t.walkRound w = .inr next) :
    t.Constraint w.current next.current ∧ w.current ∉ w.passed ∧
      next.passed = w.passed.insert w.current := by
  rw [walkRound] at h
  split at h
  next => cases h
  next name constraint hentry =>
    split at h
    next => cases h
    next hfresh =>
      cases constraint with
      | none => cases h
      | some b =>
        cases h
        exact ⟨⟨name, hentry⟩, by simpa using hfresh, rfl⟩
  next => cases h

/-- A walk that has passed only what lies behind it ends where the chain is followed to, however far
that is. -/
theorem followConstraints_of_inl {w : ConstraintWalk}
    (hbehind : ∀ x ∈ w.passed, TransGen t.Constraint x w.current) {answer : TypeId}
    (h : t.walkRound w = .inl answer) (steps : Nat) :
    t.followConstraints steps w.current = answer := by
  rcases walkRound_eq_inl h with ⟨rfl, ty, hty, hp⟩ | ⟨rfl, hnone | ⟨name, hend⟩ | hagain⟩
  · rw [followConstraints, hty]
    cases ty with
    | parameter name constraint => cases hp
    | _ => rfl
  · exact followConstraints_of_get?_eq_none hnone steps
  · rw [followConstraints, hend]
  · -- the walk is back at a parameter that it came from
    have hround : t.Circular w.current := ⟨_, .refl, hbehind _ hagain⟩
    rcases t.followConstraints_cases steps w.current with ⟨b, hb, -⟩ | ⟨heq, -⟩
    · exact absurd hround hb.not_circular
    · exact heq

/-! ## Parameters left to pass -/

/-- The numbers of the parameters. -/
def parameters (t : TypeTable) : List TypeId :=
  t.ids.filter fun id => (t.get? id).any Ty.isParameter

/-- The parameters that a walk has not passed. -/
def unpassed (t : TypeTable) (w : ConstraintWalk) : List TypeId :=
  t.parameters.filter (· ∉ w.passed)

theorem Constraint.mem_parameters {a b : TypeId} (h : t.Constraint a b) : a ∈ t.parameters := by
  obtain ⟨name, ha⟩ := h
  rw [parameters, List.mem_filter, mem_ids, ha]
  exact ⟨rfl, rfl⟩

/-- **Each round that goes on leaves one parameter less.** -/
theorem length_unpassed_lt {w next : ConstraintWalk} (h : t.walkRound w = .inr next) :
    (t.unpassed next).length < (t.unpassed w).length := by
  obtain ⟨hstep, hfresh, hpassed⟩ := walkRound_eq_inr h
  have hrest : t.unpassed next = Expansion.without (t.unpassed w) w.current := by
    rw [unpassed, unpassed, Expansion.without, List.filter_filter, hpassed]
    refine List.filter_congr fun id _ => ?_
    simp [Std.HashSet.mem_insert, @eq_comm _ w.current]
  rw [hrest]
  apply Expansion.length_without_lt
  exact List.mem_filter.2 ⟨hstep.mem_parameters, by simpa using hfresh⟩

/-- **A walk ends where the chain is followed to**, if it has passed only what lies behind it and
there are no more parameters left to pass than the chain is followed through. -/
theorem walkRounds_eq {w : ConstraintWalk}
    (hbehind : ∀ x ∈ w.passed, TransGen t.Constraint x w.current) {steps : Nat}
    (hsteps : (t.unpassed w).length ≤ steps) :
    t.walkRounds (steps + 1) w = .inl (t.followConstraints steps w.current) := by
  induction steps generalizing w with
  | zero =>
    rw [walkRounds]
    cases hround : t.walkRound w with
    | inl answer => exact congrArg Sum.inl (followConstraints_of_inl hbehind hround 0).symm
    | inr next =>
      have hfewer := length_unpassed_lt hround
      omega
  | succ steps ih =>
    rw [walkRounds]
    cases hround : t.walkRound w with
    | inl answer => exact congrArg Sum.inl (followConstraints_of_inl hbehind hround _).symm
    | inr next =>
      obtain ⟨hstep, _, hpassed⟩ := walkRound_eq_inr hround
      have hfewer := length_unpassed_lt hround
      have hnext : ∀ x ∈ next.passed, TransGen t.Constraint x next.current := by
        intro x hx
        rw [hpassed, Std.HashSet.mem_insert, beq_iff_eq] at hx
        rcases hx with rfl | hx
        · exact .single hstep
        · exact (hbehind x hx).tail hstep
      rw [followConstraints_of_constraint hstep]
      exact ih hnext (by omega)

theorem walkRounds_of_le {w : ConstraintWalk} {answer : TypeId} {rounds more : Nat}
    (h : t.walkRounds rounds w = .inl answer) (hle : rounds ≤ more) :
    t.walkRounds more w = .inl answer := by
  induction rounds generalizing w more with
  | zero => cases h
  | succ rounds ih =>
    obtain ⟨more, rfl⟩ : ∃ m, more = m + 1 := ⟨more - 1, by omega⟩
    rw [walkRounds] at h ⊢
    cases hround : t.walkRound w with
    | inl answer =>
      rw [hround] at h
      exact h
    | inr next =>
      rw [hround] at h
      exact ih h (by omega)

/-- From its start, a walk takes at most one round more than there are parameters. -/
theorem walkRounds_start (t : TypeTable) (id : TypeId) {steps : Nat}
    (hsteps : t.parameters.length ≤ steps) :
    t.walkRounds (steps + 1) ⟨id, ∅⟩ = .inl (t.followConstraints steps id) := by
  have hleft : (t.unpassed ⟨id, ∅⟩).length ≤ t.parameters.length := List.length_filter_le _ _
  exact walkRounds_eq (fun x hx => absurd hx Std.HashSet.not_mem_empty) (by omega)

/-- **No chain needs to be followed through more parameters than there are.** -/
theorem followConstraints_parameters (t : TypeTable) (id : TypeId) :
    t.followConstraints t.parameters.length id = t.apparentType id := by
  have hsize : t.parameters.length ≤ t.size := t.length_ids ▸ List.length_filter_le _ _
  have hshort := walkRounds_of_le (t.walkRounds_start id le_rfl) (Nat.succ_le_succ hsize)
  exact Sum.inl.inj (hshort.symm.trans (t.walkRounds_start id hsize))

/-! ## Where a chain comes to -/

/-- The chain of constraints from `a` comes to the type `b`, which is in the table and no
parameter. -/
def Settles (t : TypeTable) (a b : TypeId) : Prop :=
  ReflTransGen t.Constraint a b ∧ ∃ ty, t.get? b = some ty ∧ ty.isParameter = false

/-- The chain of constraints from `a` comes to a parameter without constraint. -/
def StopsOpen (t : TypeTable) (a : TypeId) : Prop :=
  ∃ p name, ReflTransGen t.Constraint a p ∧ t.get? p = some (.parameter name none)

/-- The chain of constraints from `a` leads out of the table. -/
def LeadsOut (t : TypeTable) (a : TypeId) : Prop :=
  ∃ b, ReflTransGen t.Constraint a b ∧ t.get? b = none

theorem Settles.apparentType_eq {a b : TypeId} (h : t.Settles a b) : t.apparentType a = b := by
  obtain ⟨hpath, ty, hty, hp⟩ := h
  have hend : ∀ c, ¬ t.Constraint b c := by
    rintro c ⟨name, hb⟩
    rw [hty, Option.some.injEq] at hb
    rw [hb] at hp
    cases hp
  rw [EndsAt.apparentType_eq ⟨hpath, hend⟩, ← followConstraints_of_end hend t.size]
  exact apparentType_of_not_parameter hty hp

/-- What holds of the end of a chain holds of the whole chain. -/
theorem apparentType_eq_of_path {a b : TypeId} (h : ReflTransGen t.Constraint a b) :
    t.apparentType a = t.apparentType b := by
  induction h with
  | refl => rfl
  | tail _ hbc ih => rw [ih, hbc.apparentType_eq]

theorem StopsOpen.apparentType_eq {a : TypeId} (h : t.StopsOpen a) :
    t.apparentType a = .unknown := by
  obtain ⟨p, name, hpath, hp⟩ := h
  rw [apparentType_eq_of_path hpath, LeadsNowhere.apparentType_eq (Or.inl ⟨name, hp⟩)]

theorem LeadsOut.apparentType_eq {a : TypeId} (h : t.LeadsOut a) :
    t.apparentType a = .unknown := by
  obtain ⟨b, hpath, hb⟩ := h
  rw [apparentType_eq_of_path hpath]
  exact followConstraints_of_get?_eq_none hb t.size

/-- **A chain settles on the apparent type, or there is none to settle on.** -/
theorem apparentType_cases (t : TypeTable) (a : TypeId) :
    t.Settles a (t.apparentType a) ∨
      t.apparentType a = .unknown ∧ (t.StopsOpen a ∨ t.LeadsOut a ∨ t.Circular a) := by
  rcases t.endsAt_or_circular a with ⟨b, hpath, hend⟩ | hround
  · cases hb : t.get? b with
    | none =>
      have hout : t.LeadsOut a := ⟨b, hpath, hb⟩
      exact Or.inr ⟨hout.apparentType_eq, Or.inr (Or.inl hout)⟩
    | some ty =>
      cases hp : ty.isParameter with
      | false =>
        have hsettles : t.Settles a b := ⟨hpath, ty, hb, hp⟩
        rw [hsettles.apparentType_eq]
        exact Or.inl hsettles
      | true =>
        cases ty with
        | parameter name constraint =>
          cases constraint with
          | none =>
            have hopen : t.StopsOpen a := ⟨b, name, hpath, hb⟩
            exact Or.inr ⟨hopen.apparentType_eq, Or.inl hopen⟩
          | some c => exact absurd ⟨name, hb⟩ (hend c)
        | _ => cases hp
  · exact Or.inr ⟨hround.apparentType_eq, Or.inr (Or.inr hround)⟩

/-- **A walk along constraints ends within one round more than there are parameters**, in any table
and from any number, and nothing is found by following the chain further.  It comes to the type that
the chain settles on, if there is one, and to `unknown` exactly if the chain stops at a parameter
without constraint, leads out of the table or comes back to itself, or settles on `unknown`. -/
theorem apparentType_rounds (t : TypeTable) (id : TypeId) :
    t.walkRounds (t.parameters.length + 1) ⟨id, ∅⟩ = .inl (t.apparentType id) ∧
    t.followConstraints t.parameters.length id = t.apparentType id ∧
    (∀ m, t.Settles id m → t.apparentType id = m) ∧
    (t.apparentType id = .unknown ↔
      t.StopsOpen id ∨ t.LeadsOut id ∨ t.Circular id ∨ t.Settles id .unknown) := by
  refine ⟨?_, t.followConstraints_parameters id, fun m => Settles.apparentType_eq, ?_⟩
  · rw [t.walkRounds_start id le_rfl, followConstraints_parameters]
  · constructor
    · intro hunknown
      rcases t.apparentType_cases id with hsettles | ⟨-, hopen | hout | hround⟩
      · rw [hunknown] at hsettles
        exact Or.inr (Or.inr (Or.inr hsettles))
      · exact Or.inl hopen
      · exact Or.inr (Or.inl hout)
      · exact Or.inr (Or.inr (Or.inl hround))
    · rintro (hopen | hout | hround | hsettles)
      · exact hopen.apparentType_eq
      · exact hout.apparentType_eq
      · exact hround.apparentType_eq
      · exact hsettles.apparentType_eq

end ResultLint.TypeTable
