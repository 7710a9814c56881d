import ResultLint.Proofs.Leaves
import ResultLint.Types.Display

/-!
# Other numbers for types

A map of numbers **translates** a table into another if every entry of the first stands in the
second under its new number and mentions what it mentioned under the new numbers.  Numbers of the
table have to be kept apart.  A number outside of it may become `unknown`, which it stands for
anyway, and then several numbers become the same.

* `Expansion.Translates.filterMap_expand`: an expansion and its translation find the same, in the
  same order, apart from what is lost.
* `Translates.apparentType_eq`, `Translates.unionMembers_eq`: the walks along constraints and unions
  are translated step by step.
* `Translates.mem_apparentMembers_iff`: **the apparent members are translated**, though a number
  that becomes `unknown` may be met more or less often.
* `Translates.objects_eq`: **the objects among them come in the same order.**
* `Translates.display_eq`: the text of a type quotes no numbers.
-/

namespace ResultLint

open Relation (ReflTransGen TransGen)

/-! ## Types with other numbers -/

def Parameter.map (f : TypeId → TypeId) (p : Parameter) : Parameter := { p with type := f p.type }

def Signature.map (f : TypeId → TypeId) (s : Signature) : Signature :=
  ⟨s.params.map (·.map f), f s.returnType⟩

def Property.map (f : TypeId → TypeId) (p : Property) : Property := { p with type := f p.type }

def ObjectType.map (f : TypeId → TypeId) (o : ObjectType) : ObjectType where
  name := o.name
  properties := o.properties.map (·.map f)
  callSignatures := o.callSignatures.map (·.map f)
  constructSignatures := o.constructSignatures.map (·.map f)

/-- The type with other numbers for what it mentions. -/
def Ty.map (f : TypeId → TypeId) : Ty → Ty
  | primitive p => .primitive p
  | literal l => .literal l
  | object o => .object (o.map f)
  | union members => .union (members.map f)
  | array element => .array (f element)
  | tuple elements => .tuple (elements.map f)
  | parameter name constraint => .parameter name (constraint.map f)

theorem Signature.references_map (f : TypeId → TypeId) (s : Signature) :
    (s.map f).references = s.references.map f := by
  rw [references, references, Signature.map, List.map_append, List.map_map, List.map_map]
  rfl

theorem ObjectType.references_map (f : TypeId → TypeId) (o : ObjectType) :
    (o.map f).references = o.references.map f := by
  have hsignatures : ∀ l : List Signature,
      (l.map (·.map f)).flatMap (·.references) = (l.flatMap (·.references)).map f := by
    intro l
    rw [List.flatMap_map, List.map_flatMap]
    exact List.flatMap_congr fun s _ => s.references_map f
  rw [references, references, ObjectType.map, List.map_append, List.map_map, List.map_map,
    ← List.map_append, hsignatures]
  rfl

theorem Ty.references_map (f : TypeId → TypeId) (ty : Ty) :
    (ty.map f).references = ty.references.map f := by
  cases ty with
  | object o => exact o.references_map f
  | parameter name constraint => cases constraint <;> rfl
  | _ => rfl

theorem Ty.mentions_map_iff {f : TypeId → TypeId} {ty : Ty} {r : TypeId} :
    (ty.map f).Mentions r ↔ ∃ s, ty.Mentions s ∧ f s = r := by
  simp only [← Ty.mem_references_iff, references_map, List.mem_map]

theorem Parameter.map_id (p : Parameter) : p.map id = p := rfl

theorem Signature.map_id (s : Signature) : s.map id = s := by
  rw [Signature.map, List.map_congr_left (g := id) fun p _ => p.map_id, List.map_id]
  rfl

theorem ObjectType.map_id (o : ObjectType) : o.map id = o := by
  have hsignatures : ∀ l : List Signature, l.map (·.map id) = l := by
    intro l
    rw [List.map_congr_left (g := id) fun s _ => s.map_id, List.map_id]
  have hproperties : o.properties.map (·.map id) = o.properties := o.properties.map_id
  rw [ObjectType.map, hsignatures, hsignatures, hproperties]

theorem Ty.map_id (ty : Ty) : ty.map id = ty := by
  cases ty with
  | object o => rw [Ty.map, o.map_id]
  | union members => rw [Ty.map, List.map_id]
  | tuple elements => rw [Ty.map, List.map_id]
  | parameter name constraint => rw [Ty.map, Option.map_id, id]
  | _ => rfl

theorem ObjectType.property?_map (f : TypeId → TypeId) (o : ObjectType) (name : String) :
    (o.map f).property? name = (o.property? name).map f := by
  rw [property?, property?, ObjectType.map, List.find?_map, Option.map_map, Option.map_map]
  rfl

/-! ## Expansions -/

/-- The numbers that can be met open and have parts alike.  A `Lost` one becomes the same number as
its only part, which does not open. -/
structure Expansion.Translates (f : TypeId → TypeId) (Met Lost : TypeId → Prop)
    (e e' : Expansion) : Prop where
  met : ∀ {id : TypeId}, Met id → e.opens id = true → ∀ part ∈ e.parts id, Met part
  opens : ∀ {id : TypeId}, Met id → ¬ Lost id → e'.opens (f id) = e.opens id
  parts : ∀ {id : TypeId}, Met id → ¬ Lost id → e.opens id = true →
    e'.parts (f id) = (e.parts id).map f
  lost : ∀ {id : TypeId}, Met id → Lost id →
    e.opens id = true ∧ (e.parts id).map f = [f id] ∧ e'.opens (f id) = false
  injective : ∀ {a b : TypeId}, Met a → Met b → ¬ Lost a → ¬ Lost b → e.opens a = true →
    e.opens b = true → f a = f b → a = b

namespace Expansion.Translates

variable {f : TypeId → TypeId} {Met Lost : TypeId → Prop} {e e' : Expansion}
  (h : e.Translates f Met Lost e')

include h

/-- **An expansion and its translation find the same, in the same order**, of what is kept.  Nothing
is kept of the numbers that others are lost in. -/
theorem filterMap_expand {β : Type} {keep keep' : TypeId → Option β}
    (hkeep : ∀ id, Met id → keep' (f id) = keep id)
    (hlost : ∀ id, Met id → Lost id → keep id = none) {fresh fresh' work : List TypeId}
    (hwork : ∀ id ∈ work, Met id)
    (hfresh : ∀ id, Met id → ¬ Lost id → e.opens id = true → (f id ∈ fresh' ↔ id ∈ fresh)) :
    (e'.expand fresh' (work.map f)).filterMap keep' = (e.expand fresh work).filterMap keep := by
  -- along the first expansion; what is fresh is so for both, as long as it opens in both
  fun_induction expand e fresh work generalizing fresh' with
  | case1 => rw [List.map_nil, expand, List.filterMap_nil, List.filterMap_nil]
  | case2 fresh id rest ho hf ih =>
    have hid : Met id := hwork id List.mem_cons_self
    have hnext : ∀ other ∈ e.parts id ++ rest, Met other := by
      intro other hother
      rcases List.mem_append.1 hother with hp | hr
      · exact h.met hid ho other hp
      · exact hwork other (List.mem_cons_of_mem id hr)
    by_cases hl : Lost id
    · have hfresh' : ∀ other, Met other → ¬ Lost other → e.opens other = true →
          (f other ∈ fresh' ↔ other ∈ without fresh id) := by
        intro other hm hnot hother
        have hne : other ≠ id := fun heq => hnot (heq ▸ hl)
        rw [mem_without, hfresh other hm hnot hother]
        exact (and_iff_left hne).symm
      have hsame := ih hnext hfresh'
      rwa [List.map_append, (h.lost hid hl).2.1] at hsame
    · rw [List.map_cons, expand, h.opens hid hl, if_pos ho, if_pos ((hfresh id hid hl ho).2 hf),
        h.parts hid hl ho, ← List.map_append]
      refine ih hnext fun other hm hnot hother => ?_
      rw [mem_without, mem_without, hfresh other hm hnot hother]
      refine and_congr_right fun _ => not_congr ⟨fun heq => ?_, congrArg f⟩
      exact h.injective hm hid hnot hl hother ho heq
  | case3 fresh id rest ho hf ih =>
    have hid : Met id := hwork id List.mem_cons_self
    have hrest : ∀ other ∈ rest, Met other :=
      fun other hr => hwork other (List.mem_cons_of_mem id hr)
    by_cases hl : Lost id
    · have hnone : keep' (f id) = none := (hkeep id hid).trans (hlost id hid hl)
      rw [List.map_cons, expand, (h.lost hid hl).2.2, if_neg (by decide),
        List.filterMap_cons_none hnone]
      exact ih hrest hfresh
    · have hf' : f id ∉ fresh' := fun hmem => hf ((hfresh id hid hl ho).1 hmem)
      rw [List.map_cons, expand, h.opens hid hl, if_pos ho, if_neg hf']
      exact ih hrest hfresh
  | case4 fresh id rest hc ih =>
    have hid : Met id := hwork id List.mem_cons_self
    have hl : ¬ Lost id := fun hl => hc (h.lost hid hl).1
    have hrest : ∀ other ∈ rest, Met other :=
      fun other hr => hwork other (List.mem_cons_of_mem id hr)
    rw [List.map_cons, expand, h.opens hid hl, if_neg hc, List.filterMap_cons, List.filterMap_cons,
      hkeep id hid, ih hrest hfresh]

/-- **If nothing is lost, the translation finds the translation of what is found.** -/
theorem map_expand (hnone : ∀ id, ¬ Lost id) {fresh fresh' work : List TypeId}
    (hwork : ∀ id ∈ work, Met id)
    (hfresh : ∀ id, Met id → e.opens id = true → (f id ∈ fresh' ↔ id ∈ fresh)) :
    e'.expand fresh' (work.map f) = (e.expand fresh work).map f := by
  have hsome : (e'.expand fresh' (work.map f)).filterMap some =
      (e.expand fresh work).filterMap fun id => some (f id) :=
    h.filterMap_expand (fun _ _ => rfl) (fun id _ hl => absurd hl (hnone id)) hwork
      fun id hm _ ho => hfresh id hm ho
  rwa [List.filterMap_some, List.filterMap_eq_map'] at hsome

end Expansion.Translates

/-! ## Tables -/

namespace TypeTable

variable {f : TypeId → TypeId} {t u : TypeTable}

/-- The number is in the table or becomes `unknown`. -/
def Known (f : TypeId → TypeId) (t : TypeTable) (id : TypeId) : Prop :=
  t.contains id = true ∨ f id = .unknown

/-- Every entry of `t` stands in `u` under its new number. -/
structure Translates (f : TypeId → TypeId) (t u : TypeTable) : Prop where
  unknown : t.get? .unknown = some (.primitive .unknown)
  fixed : f .unknown = .unknown
  entry : ∀ {id : TypeId} {ty : Ty}, t.get? id = some ty → u.get? (f id) = some (ty.map f)
  injective : ∀ {a b : TypeId}, t.contains a = true → t.contains b = true → f a = f b → a = b
  mentioned : ∀ {id : TypeId} {ty : Ty} {r : TypeId}, t.get? id = some ty → ty.Mentions r →
    t.Known f r

namespace Translates

theorem contains_unknown (h : t.Translates f u) : t.contains .unknown = true :=
  contains_iff.2 ⟨_, h.unknown⟩

theorem known_unknown (h : t.Translates f u) : t.Known f .unknown := Or.inl h.contains_unknown

theorem get?_unknown (h : t.Translates f u) : u.get? .unknown = some (.primitive .unknown) := by
  have hentry := h.entry h.unknown
  rwa [h.fixed] at hentry

/-- A known number is in the table, or stands for `unknown` in both. -/
theorem cases (h : t.Translates f u) {id : TypeId} (hid : t.Known f id) :
    (∃ ty, t.get? id = some ty ∧ u.get? (f id) = some (ty.map f)) ∨
      t.get? id = none ∧ f id = .unknown ∧ u.get? (f id) = some (.primitive .unknown) := by
  cases hty : t.get? id with
  | some ty => exact Or.inl ⟨ty, rfl, h.entry hty⟩
  | none =>
    rcases hid with hid | hid
    · obtain ⟨ty, hty'⟩ := contains_iff.1 hid
      rw [hty] at hty'
      cases hty'
    · exact Or.inr ⟨rfl, hid, hid ▸ h.get?_unknown⟩

theorem resolve_eq (h : t.Translates f u) {id : TypeId} (hid : t.Known f id) :
    u.resolve (f id) = (t.resolve id).map f := by
  rcases h.cases hid with ⟨ty, hty, hty'⟩ | ⟨hnone, _, hunknown⟩
  · rw [resolve_of_get? hty, resolve_of_get? hty']
  · rw [resolve, resolve, hnone, hunknown]
    rfl

theorem known_of_mentions (h : t.Translates f u) {id r : TypeId}
    (hr : (t.resolve id).Mentions r) : t.Known f r := by
  cases hty : t.get? id with
  | some ty =>
    rw [resolve_of_get? hty] at hr
    exact h.mentioned hty hr
  | none =>
    rw [resolve, hty] at hr
    cases hr

/-! ### Constraints -/

theorem constraint (h : t.Translates f u) {a b : TypeId} (hab : t.Constraint a b) :
    u.Constraint (f a) (f b) := by
  obtain ⟨name, ha⟩ := hab
  exact ⟨name, h.entry ha⟩

theorem known_of_constraints (h : t.Translates f u) {a b : TypeId} (ha : t.Known f a)
    (hab : ReflTransGen t.Constraint a b) : t.Known f b := by
  rcases hab.cases_tail with rfl | ⟨c, _, name, hc⟩
  · exact ha
  · exact h.mentioned hc (.constraint name b)

/-- A chain that ends is translated to a chain that ends. -/
theorem endsAt (h : t.Translates f u) {a b : TypeId} (ha : t.Known f a) (hab : t.EndsAt a b) :
    u.EndsAt (f a) (f b) := by
  refine ⟨ReflTransGen.lift f (fun _ _ hstep => h.constraint hstep) _ _ hab.1, ?_⟩
  rintro c ⟨name, hc⟩
  rcases h.cases (h.known_of_constraints ha hab.1) with ⟨ty, hty, hty'⟩ | ⟨_, _, hunknown⟩
  · rw [hty'] at hc
    cases ty with
    | parameter name' constraint =>
      cases constraint with
      | none => cases hc
      | some c' => exact hab.2 c' ⟨name', hty⟩
    | _ => cases hc
  · rw [hunknown] at hc
    cases hc

/-- **The apparent type is translated.** -/
theorem apparentType_eq (h : t.Translates f u) {a : TypeId} (ha : t.Known f a) :
    u.apparentType (f a) = f (t.apparentType a) := by
  rcases t.endsAt_or_circular a with ⟨b, hab⟩ | hc
  · rw [hab.apparentType_eq, (h.endsAt ha hab).apparentType_eq, followConstraints,
      followConstraints]
    rcases h.cases (h.known_of_constraints ha hab.1) with ⟨ty, hty, hty'⟩ | ⟨hnone, hb, hunknown⟩
    · rw [hty, hty']
      cases ty with
      | parameter name constraint => cases constraint <;> exact h.fixed.symm
      | _ => rfl
    · rw [hnone, hunknown]
      exact hb.trans h.fixed.symm
  · obtain ⟨b, hab, hb⟩ := hc
    have hround : u.Circular (f a) :=
      ⟨f b, ReflTransGen.lift f (fun _ _ hstep => h.constraint hstep) _ _ hab,
        TransGen.lift f (fun _ _ hstep => h.constraint hstep) _ _ hb⟩
    rw [hround.apparentType_eq, Circular.apparentType_eq ⟨b, hab, hb⟩, h.fixed]

theorem known_apparentType (h : t.Translates f u) (a : TypeId) : t.Known f (t.apparentType a) :=
  Or.inl (contains_apparentType h.unknown a)

/-- A number outside the table stands for `unknown` and not for itself. -/
theorem apparentType_of_not_contains (h : t.Translates f u) {a : TypeId}
    (ha : ¬ t.contains a = true) : t.apparentType a = .unknown ∧ t.apparentType a ≠ a := by
  have hnone : t.get? a = none := by
    cases hty : t.get? a with
    | none => rfl
    | some ty => exact absurd (contains_iff.2 ⟨ty, hty⟩) ha
  have heq : t.apparentType a = .unknown := followConstraints_of_get?_eq_none hnone _
  refine ⟨heq, fun hself => ha ?_⟩
  rw [← hself]
  exact contains_apparentType h.unknown a

/-- Known numbers are their own apparent types alike, if they are in the table. -/
theorem apparentType_eq_self_iff (h : t.Translates f u) {a : TypeId} (ha : t.contains a = true) :
    u.apparentType (f a) = f a ↔ t.apparentType a = a := by
  rw [h.apparentType_eq (Or.inl ha)]
  exact ⟨h.injective (contains_apparentType h.unknown a) ha, congrArg f⟩

/-! ### Unions -/

theorem union?_eq (h : t.Translates f u) {id : TypeId} (hid : t.Known f id) :
    u.union? (f id) = (t.union? id).map (·.map f) := by
  rw [union?, union?]
  rcases h.cases hid with ⟨ty, hty, hty'⟩ | ⟨hnone, _, hunknown⟩
  · rw [hty, hty']
    cases ty <;> rfl
  · rw [hnone, hunknown]
    rfl

theorem known_of_mem_union? (h : t.Translates f u) {id m : TypeId} {members : List TypeId}
    (hid : t.union? id = some members) (hm : m ∈ members) : t.Known f m := by
  rw [union?] at hid
  split at hid
  next entry =>
    cases hid
    exact h.mentioned entry (.member hm)
  next => cases hid

theorem unions_translates (h : t.Translates f u) :
    t.unions.Translates f (t.Known f) (fun _ => False) u.unions where
  met := by
    intro id hid ho part hpart
    obtain ⟨members, hm⟩ := Option.isSome_iff_exists.1 ho
    have hpart : part ∈ (t.union? id).getD [] := hpart
    rw [hm, Option.getD_some] at hpart
    exact h.known_of_mem_union? hm hpart
  opens := by
    intro id hid _
    show (u.union? (f id)).isSome = (t.union? id).isSome
    rw [h.union?_eq hid, Option.isSome_map]
  parts := by
    intro id hid _ _
    show (u.union? (f id)).getD [] = ((t.union? id).getD []).map f
    rw [h.union?_eq hid]
    cases t.union? id <;> rfl
  lost _ hl := hl.elim
  injective := by
    intro a b _ _ _ _ ha hb
    have hcontains : ∀ {id : TypeId}, t.unions.opens id = true → t.contains id = true := by
      intro id ho
      exact contains_iff.2 (Option.isSome_iff_exists.1 (mem_ids.1 (mem_ids_of_isSome_union? ho)))
    exact h.injective (hcontains ha) (hcontains hb)

theorem mem_ids_iff (h : t.Translates f u) {id : TypeId} (hid : t.contains id = true) :
    id ∈ t.ids ∧ f id ∈ u.ids := by
  obtain ⟨ty, hty⟩ := contains_iff.1 hid
  refine ⟨mem_ids.2 ?_, mem_ids.2 ?_⟩
  · rw [hty]
    rfl
  · rw [h.entry hty]
    rfl

/-- **The members of a union are translated**, in their order. -/
theorem unionMembers_eq (h : t.Translates f u) {a : TypeId} (ha : t.Known f a) :
    u.unionMembers (f a) = (t.unionMembers a).map f := by
  rw [unionMembers_eq_expand, unionMembers_eq_expand]
  have hknown : ∀ id ∈ [a], t.Known f id := by
    intro id hid
    rwa [List.mem_singleton.1 hid]
  refine h.unions_translates.map_expand (fun _ => id) hknown ?_
  · intro id _ ho
    have hid := mem_ids_of_isSome_union? ho
    have hcontains := contains_iff.2 (Option.isSome_iff_exists.1 (mem_ids.1 hid))
    exact iff_of_true (h.mem_ids_iff hcontains).2 hid

theorem known_of_mem_unionMembers (h : t.Translates f u) {a m : TypeId} (ha : t.Known f a)
    (hm : m ∈ t.unionMembers a) : t.Known f m := by
  rcases (mem_unionMembers_iff.1 hm).2.cases_tail with rfl | ⟨b, _, members, hb, hmem⟩
  · exact ha
  · exact h.mentioned hb (.member hmem)

/-! ### Unions and parameters -/

/-- The members of what a number amounts to by its constraints are translated. -/
theorem resolved_eq (h : t.Translates f u) {a : TypeId} (ha : t.Known f a) :
    u.unionMembers (u.apparentType (f a)) = (t.unionMembers (t.apparentType a)).map f := by
  rw [h.apparentType_eq ha, h.unionMembers_eq (h.known_apparentType a)]

theorem known_of_mem_resolved (h : t.Translates f u) {a m : TypeId}
    (hm : m ∈ t.unionMembers (t.apparentType a)) : t.Known f m :=
  h.known_of_mem_unionMembers (h.known_apparentType a) hm

theorem known_of_resolves (h : t.Translates f u) {a b : TypeId} (ha : t.Known f a)
    (hab : ReflTransGen t.Resolves a b) : t.Known f b := by
  rcases hab.cases_tail with rfl | ⟨c, _, hc⟩
  · exact ha
  · exact h.known_of_mem_resolved hc.2

/-- A step is translated to a step, or to none if its start is lost in `unknown`. -/
theorem path_of_resolves (h : t.Translates f u) {a b : TypeId} (ha : t.Known f a)
    (hab : t.Resolves a b) : ReflTransGen u.Resolves (f a) (f b) := by
  by_cases hcontains : t.contains a = true
  · have hne : u.apparentType (f a) ≠ f a := fun heq =>
      hab.1 ((h.apparentType_eq_self_iff hcontains).1 heq)
    refine .single ⟨hne, ?_⟩
    rw [h.resolved_eq ha]
    exact List.mem_map_of_mem hab.2
  · obtain ⟨hunknown, _⟩ := h.apparentType_of_not_contains hcontains
    have hb : b = .unknown := by
      have hmem := hab.2
      rw [hunknown, unionMembers_unknown h.unknown] at hmem
      exact List.mem_singleton.1 hmem
    have hsame : f a = f b := by
      rw [hb, h.fixed]
      exact ha.resolve_left hcontains
    rw [hsame]

/-- A step of the translation is the translation of a step. -/
theorem exists_of_resolves (h : t.Translates f u) {a b' : TypeId} (ha : t.Known f a)
    (hab : u.Resolves (f a) b') : ∃ b, t.Resolves a b ∧ f b = b' := by
  obtain ⟨hne, hmem⟩ := hab
  rw [h.resolved_eq ha] at hmem
  obtain ⟨b, hb, rfl⟩ := List.mem_map.1 hmem
  refine ⟨b, ⟨fun heq => hne ?_, hb⟩, rfl⟩
  rw [h.apparentType_eq ha, heq]

theorem exists_of_path (h : t.Translates f u) {a b' : TypeId} (ha : t.Known f a)
    (hab : ReflTransGen u.Resolves (f a) b') : ∃ b, ReflTransGen t.Resolves a b ∧ f b = b' := by
  induction hab with
  | refl => exact ⟨a, .refl, rfl⟩
  | tail _ hstep ih =>
    obtain ⟨b, hpath, rfl⟩ := ih
    obtain ⟨c, hc, rfl⟩ := h.exists_of_resolves (h.known_of_resolves ha hpath) hstep
    exact ⟨c, hpath.tail hc, rfl⟩

theorem path_of_path (h : t.Translates f u) {a b : TypeId} (ha : t.Known f a)
    (hab : ReflTransGen t.Resolves a b) : ReflTransGen u.Resolves (f a) (f b) := by
  induction hab with
  | refl => exact .refl
  | tail hpath hstep ih => exact ih.trans (h.path_of_resolves (h.known_of_resolves ha hpath) hstep)

/-- **The apparent members are translated.** -/
theorem mem_apparentMembers_iff (h : t.Translates f u) {a m' : TypeId} (ha : t.Known f a) :
    m' ∈ u.apparentMembers (f a) ↔ ∃ m ∈ t.apparentMembers a, f m = m' := by
  rw [TypeTable.mem_apparentMembers_iff, h.resolved_eq ha]
  constructor
  · rintro ⟨hself, w', hw', hpath'⟩
    obtain ⟨w, hw, rfl⟩ := List.mem_map.1 hw'
    have hknown := h.known_of_mem_resolved hw
    obtain ⟨m, hpath, rfl⟩ := h.exists_of_path hknown hpath'
    by_cases hcontains : t.contains m = true
    · have hm := (h.apparentType_eq_self_iff hcontains).1 hself
      exact ⟨m, TypeTable.mem_apparentMembers_iff.2 ⟨hm, w, hw, hpath⟩, rfl⟩
    · -- the path goes on to `unknown`, where the translation already is
      obtain ⟨hunknown, hne⟩ := h.apparentType_of_not_contains hcontains
      have hstep : t.Resolves m .unknown := by
        refine ⟨hne, ?_⟩
        rw [hunknown, unionMembers_unknown h.unknown]
        exact List.mem_singleton_self _
      refine ⟨.unknown, ?_, ?_⟩
      · exact TypeTable.mem_apparentMembers_iff.2
          ⟨apparentType_unknown h.unknown, w, hw, hpath.tail hstep⟩
      · rw [h.fixed]
        exact ((h.known_of_resolves hknown hpath).resolve_left hcontains).symm
  · rintro ⟨m, hm, rfl⟩
    obtain ⟨hself, w, hw, hpath⟩ := TypeTable.mem_apparentMembers_iff.1 hm
    have hknown := h.known_of_mem_resolved hw
    refine ⟨?_, f w, List.mem_map_of_mem hw, h.path_of_path hknown hpath⟩
    rw [h.apparentType_eq (h.known_of_resolves hknown hpath), hself]

theorem contains_of_mem_apparentMembers (h : t.Translates f u) {a m : TypeId}
    (hm : m ∈ t.apparentMembers a) : t.contains m = true := by
  rw [← (TypeTable.mem_apparentMembers_iff.1 hm).1]
  exact contains_apparentType h.unknown m

theorem generics_translates (h : t.Translates f u) :
    t.generics.Translates f (t.Known f) (fun id => ¬ t.contains id = true) u.generics where
  met _ _ _ hpart := h.known_of_mem_resolved hpart
  opens := by
    intro id _ hid
    have hiff := h.apparentType_eq_self_iff (not_not.1 hid)
    exact decide_eq_decide.2 (not_congr hiff)
  parts hid _ _ := h.resolved_eq hid
  lost := by
    intro id hid hlost
    obtain ⟨hunknown, hne⟩ := h.apparentType_of_not_contains hlost
    have hf : f id = .unknown := hid.resolve_left hlost
    refine ⟨decide_eq_true hne, ?_, ?_⟩
    · show (t.unionMembers (t.apparentType id)).map f = [f id]
      rw [hunknown, unionMembers_unknown h.unknown, List.map_singleton, h.fixed, hf]
    · refine decide_eq_false (not_not.2 ?_)
      rw [h.apparentType_eq hid, hunknown, h.fixed, hf]
  injective _ _ ha hb _ _ := h.injective (not_not.1 ha) (not_not.1 hb)

theorem object?_eq (h : t.Translates f u) {id : TypeId} (hid : t.Known f id) :
    u.object? (f id) = (t.object? id).map (·.map f) := by
  rw [object?, object?, h.resolve_eq hid]
  cases t.resolve id <;> rfl

/-- **The objects among the apparent members are translated, in their order.** -/
theorem objects_eq (h : t.Translates f u) {a : TypeId} (ha : t.Known f a) :
    (u.apparentMembers (f a)).filterMap u.object? =
      ((t.apparentMembers a).filterMap t.object?).map (·.map f) := by
  have hfresh : ∀ {v : TypeTable} {id b : TypeId}, id ∈ v.ids →
      (id ∈ Expansion.without (v.ids ++ v.listedMembers) b ↔ id ≠ b) := by
    intro v id b hid
    rw [Expansion.mem_without]
    exact and_iff_right (List.mem_append_left _ hid)
  rw [List.map_filterMap, apparentMembers_eq_expand, apparentMembers_eq_expand, h.resolved_eq ha]
  refine h.generics_translates.filterMap_expand ?_ ?_ ?_ ?_
  · exact fun id hid => h.object?_eq hid
  · intro id _ hlost
    have hnone : t.get? id = none := by
      cases hty : t.get? id with
      | none => rfl
      | some ty => exact absurd (contains_iff.2 ⟨ty, hty⟩) hlost
    rw [object?, resolve, hnone]
    rfl
  · exact fun id hid => h.known_of_mem_resolved hid
  · intro id _ hid ho
    have hid : t.contains id = true := not_not.1 hid
    rw [hfresh (h.mem_ids_iff hid).1, hfresh (h.mem_ids_iff hid).2]
    refine not_congr ⟨fun heq => ?_, congrArg f⟩
    by_cases hcontains : t.contains a = true
    · exact h.injective hid hcontains heq
    · -- only `unknown` becomes `unknown` with `a`, and it does not open
      have hsame : f id = f .unknown := by
        rw [heq, h.fixed]
        exact ha.resolve_left hcontains
      have hunknown := h.injective hid h.contains_unknown hsame
      rw [hunknown] at ho
      exact absurd (apparentType_unknown h.unknown) (of_decide_eq_true ho)

/-! ### Texts -/

theorem signatureText_map {text text' : TypeId → String} {s : Signature}
    (h : ∀ r ∈ s.references, text' (f r) = text r) :
    signatureText text' (s.map f) = signatureText text s := by
  have hreturn : text' (f s.returnType) = text s.returnType :=
    h _ (Signature.mem_references.2 (Or.inr rfl))
  have hparams : (s.map f).params.map (parameterText text') =
      s.params.map (parameterText text) := by
    rw [Signature.map, List.map_map]
    refine List.map_congr_left fun p hp => ?_
    have hp := h p.type (Signature.mem_references.2 (Or.inl ⟨p, hp, rfl⟩))
    rw [Function.comp_apply, parameterText, parameterText, Parameter.map, hp]
  rw [signatureText, signatureText, hparams]
  exact congrArg (_ ++ ·) hreturn

theorem objectText_map {text text' : TypeId → String} {o : ObjectType}
    (h : ∀ r ∈ o.references, text' (f r) = text r) :
    objectText text' (o.map f) = objectText text o := by
  obtain ⟨name, properties, calls, constructs⟩ := o
  have hproperty : ∀ p ∈ properties, propertyText text' (p.map f) = propertyText text p := by
    intro p hp
    have hp := h p.type (ObjectType.mem_references.2 (Or.inl ⟨p, hp, rfl⟩))
    rw [propertyText, propertyText, Property.map, hp]
  have hsignature : ∀ s ∈ calls, signatureText text' (s.map f) = signatureText text s := by
    intro s hs
    exact signatureText_map fun r hr =>
      h r (ObjectType.mem_references.2 (Or.inr (Or.inl ⟨s, hs, hr⟩)))
  have hparts : (properties.map (·.map f)).map (propertyText text') ++
        (calls.map (·.map f)).map (signatureText text') =
      properties.map (propertyText text) ++ calls.map (signatureText text) := by
    rw [List.map_map, List.map_map]
    exact congrArg₂ (· ++ ·) (List.map_congr_left hproperty) (List.map_congr_left hsignature)
  have hlisted := congrArg (fun parts => "\x7b " ++ sequenceText "; " parts ++ " \x7d") hparts
  cases properties with
  | cons p ps => exact hlisted
  | nil =>
    cases calls with
    | nil => exact hlisted
    | cons s rest =>
      cases rest with
      | nil => exact hsignature s List.mem_cons_self
      | cons _ _ => exact hlisted

theorem textWithin_eq (h : t.Translates f u) (depth : Nat) {id : TypeId} (hid : t.Known f id) :
    u.textWithin depth (f id) = t.textWithin depth id := by
  induction depth generalizing id with
  | zero => rfl
  | succ depth ih =>
    have hmentioned : ∀ r, (t.resolve id).Mentions r →
        u.textWithin depth (f r) = t.textWithin depth r :=
      fun r hr => ih (h.known_of_mentions hr)
    have hlist : ∀ {l : List TypeId}, (∀ r ∈ l, (t.resolve id).Mentions r) →
        (l.map f).map (u.textWithin depth) = l.map (t.textWithin depth) := by
      intro l hl
      rw [List.map_map]
      exact List.map_congr_left fun r hr => hmentioned r (hl r hr)
    have hunion : ∀ r, (t.resolve id).Mentions r →
        (u.resolve (f r)).isUnion = (t.resolve r).isUnion := by
      intro r hr
      rw [h.resolve_eq (h.known_of_mentions hr)]
      cases t.resolve r <;> rfl
    rw [textWithin, textWithin, h.resolve_eq hid]
    cases hty : t.resolve id with
    | primitive p => rfl
    | literal l => rfl
    | object o =>
      have htext : objectText (u.textWithin depth) (o.map f) =
          objectText (t.textWithin depth) o := by
        refine objectText_map fun r hr => hmentioned r ?_
        rw [hty]
        exact Ty.mem_references_iff.1 hr
      exact congrArg o.name.getD htext
    | union members =>
      refine congrArg (sequenceText " | ") (hlist fun r hr => ?_)
      rw [hty]
      exact .member hr
    | array element =>
      have hm : (t.resolve id).Mentions element := hty ▸ .arrayElement element
      simp only [Ty.map, hunion element hm, hmentioned element hm]
    | tuple elements =>
      have htext := hlist fun r (hr : r ∈ elements) => hty ▸ .tupleElement hr
      simp only [Ty.map, htext]
    | parameter name constraint => rfl

/-- The text of a type quotes no numbers. -/
theorem display_eq (h : t.Translates f u) {id : TypeId} (hid : t.Known f id) :
    u.display (f id) = t.display id :=
  h.textWithin_eq 9 hid

end Translates

end TypeTable

end ResultLint
