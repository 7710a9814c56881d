import Std.Data.HashMap.Lemmas
import ResultLint.Proofs.Validity

/-!
# Interning

A table looks a type up from its end, so that of equal entries the last one counts, and adds a type
only if it is not found.  The calls that make a type all come down to this; only a union of one
makes nothing.

An **interner** has a map from types to numbers beside the table, to look types up in.  The map is
changed in two ways only: entry by entry when a list of types is taken over, whatever the list
repeats, and when a new type is added.

* `idOf?_eq_some_iff`: the table finds the last number with a type.
* `Extends`, `extends_calls`: entries stay what they are, whatever is called.
* `Interner.InStep`: the map leads to the last number with a type and to nothing else.
* `InStep.add`, `InStep.calls`: **the map and the table stay in step**, from one call to the next
  and through any calls.
* `interning_calls`: **what calls can rely on**, from the primitives or from any list of types.
-/

namespace ResultLint

/-! ## Looking up -/

namespace TypeTable

variable {t u v : TypeTable} {ty : Ty} {id : TypeId}

/-- The last number with that type. -/
def IsLast (t : TypeTable) (ty : Ty) (id : TypeId) : Prop :=
  t.get? id = some ty ∧ ∀ other, t.get? other = some ty → other.index ≤ id.index

theorem IsLast.unique {a b : TypeId} (ha : t.IsLast ty a) (hb : t.IsLast ty b) : a = b := by
  obtain ⟨i⟩ := a
  obtain ⟨j⟩ := b
  exact congrArg TypeId.mk (Nat.le_antisymm (hb.2 _ ha.1) (ha.2 _ hb.1))

theorem pairwise_reverse_ids (t : TypeTable) :
    t.ids.reverse.Pairwise fun a b => b.index < a.index := by
  rw [List.pairwise_reverse, ids, List.pairwise_map]
  exact List.pairwise_lt_range

theorem isLast_of_idOf? (h : t.idOf? ty = some id) : t.IsLast ty id := by
  obtain ⟨hid, later, earlier, hids, hlater⟩ := List.find?_eq_some_iff_append.1 h
  refine ⟨of_decide_eq_true hid, fun other hother => ?_⟩
  have hmem : other ∈ later ++ id :: earlier := by
    rw [← hids, List.mem_reverse, mem_ids, hother]
    rfl
  have hordered := t.pairwise_reverse_ids
  rw [hids] at hordered
  rcases List.mem_append.1 hmem with hmem | hmem
  · -- numbers after `id` were looked at before it, and had another type
    have hne := hlater other hmem
    simp [hother] at hne
  · rcases List.mem_cons.1 hmem with rfl | hmem
    · exact Nat.le_refl _
    · exact Nat.le_of_lt ((List.pairwise_cons.1 (List.pairwise_append.1 hordered).2.1).1 other hmem)

theorem idOf?_eq_none_iff : t.idOf? ty = none ↔ ∀ id, t.get? id ≠ some ty := by
  rw [idOf?, List.find?_eq_none]
  simp only [List.mem_reverse, mem_ids, decide_eq_true_eq]
  constructor
  · intro h id hid
    exact h id (by rw [hid]; rfl) hid
  · exact fun h id _ => h id

/-- **The table finds the last number with a type.** -/
theorem idOf?_eq_some_iff : t.idOf? ty = some id ↔ t.IsLast ty id := by
  refine ⟨isLast_of_idOf?, fun h => ?_⟩
  cases hfound : t.idOf? ty with
  | none => exact absurd h.1 (idOf?_eq_none_iff.1 hfound id)
  | some other => rw [(isLast_of_idOf? hfound).unique h]

theorem intern_of_isLast (h : t.IsLast ty id) : t.intern ty = (id, t) := by
  rw [intern, idOf?_eq_some_iff.2 h]

theorem intern_of_absent (h : ∀ id, t.get? id ≠ some ty) :
    t.intern ty = (⟨t.size⟩, t.push ty) := by
  rw [intern, idOf?_eq_none_iff.2 h]
  rfl

/-- What was added last is the last of its type, and of other types the last stays the last. -/
theorem isLast_push_iff {new : Ty} :
    (t.push new).IsLast ty id ↔ if new = ty then id = ⟨t.size⟩ else t.IsLast ty id := by
  have hsize : ∀ {other : TypeId} {found : Ty}, t.get? other = some found →
      other.index < t.size := fun hother => (Array.getElem?_eq_some_iff.1 hother).1
  split
  next heq =>
    subst heq
    have hlast : (t.push new).IsLast new ⟨t.size⟩ := by
      refine ⟨get?_push_size, fun other hother => ?_⟩
      rw [get?_push] at hother
      split at hother
      next hindex => exact Nat.le_of_eq hindex
      next => exact Nat.le_of_lt (hsize hother)
    exact ⟨fun h => h.unique hlast, fun h => h ▸ hlast⟩
  next hne =>
    have hget : ∀ other, (t.push new).get? other = some ty ↔ t.get? other = some ty := by
      intro other
      rw [get?_push]
      split
      next hindex =>
        refine iff_of_false (fun h => hne (Option.some.inj h)) fun h => ?_
        exact absurd (hsize h) (by omega)
      next => exact Iff.rfl
    simp only [IsLast, hget]

/-! ## Entries stay -/

/-- The second table has the entries of the first, under the same numbers. -/
structure Extends (t u : TypeTable) : Prop where
  entry : ∀ {id : TypeId} {ty : Ty}, t.get? id = some ty → u.get? id = some ty

theorem Extends.refl (t : TypeTable) : t.Extends t := ⟨id⟩

theorem Extends.trans (h : t.Extends u) (h' : u.Extends v) : t.Extends v :=
  ⟨fun hid => h'.entry (h.entry hid)⟩

theorem extends_push (t : TypeTable) (ty : Ty) : t.Extends (t.push ty) := by
  constructor
  intro id old hid
  rw [get?_push_of_contains (contains_iff.2 ⟨old, hid⟩), hid]

theorem intern_spec (t : TypeTable) (ty : Ty) :
    t.Extends (t.intern ty).2 ∧ (t.intern ty).2.IsLast ty (t.intern ty).1 := by
  cases hfound : t.idOf? ty with
  | some id =>
    have hlast := idOf?_eq_some_iff.1 hfound
    rw [intern_of_isLast hlast]
    exact ⟨.refl t, hlast⟩
  | none =>
    rw [intern_of_absent (idOf?_eq_none_iff.1 hfound)]
    refine ⟨t.extends_push ty, isLast_push_iff.2 ?_⟩
    rw [if_pos rfl]

theorem extends_intern (t : TypeTable) (ty : Ty) : t.Extends (t.intern ty).2 :=
  (t.intern_spec ty).1

theorem get?_intern (t : TypeTable) (ty : Ty) : (t.intern ty).2.get? (t.intern ty).1 = some ty :=
  (t.intern_spec ty).2.1

/-- A type that is in the table is not added again. -/
theorem table_intern_of_entry (h : t.get? id = some ty) : (t.intern ty).2 = t := by
  cases hfound : t.idOf? ty with
  | some last => rw [intern_of_isLast (idOf?_eq_some_iff.1 hfound)]
  | none => exact absurd h (idOf?_eq_none_iff.1 hfound id)

/-- A number has one type only, so no other type gets it. -/
theorem intern_ne_of_entry (h : t.get? id = some ty) {other : Ty} (hne : other ≠ ty) :
    (t.intern other).1 ≠ id := by
  intro heq
  have hother := t.get?_intern other
  rw [heq, (t.extends_intern other).entry h] at hother
  exact hne (Option.some.inj hother).symm

/-- Only a type that is missing is added, so the last number with a type stays the last. -/
theorem IsLast.intern (h : t.IsLast ty id) (new : Ty) : (t.intern new).2.IsLast ty id := by
  cases hfound : t.idOf? new with
  | some _ => rwa [intern_of_isLast (idOf?_eq_some_iff.1 hfound)]
  | none =>
    have habsent := idOf?_eq_none_iff.1 hfound
    have hne : new ≠ ty := fun heq => habsent id (heq ▸ h.1)
    rw [intern_of_absent habsent]
    refine isLast_push_iff.2 ?_
    rwa [if_neg hne]

/-- Every entry is the last of its type, so that no type is in the table twice. -/
def Distinct (t : TypeTable) : Prop := ∀ id ty, t.get? id = some ty → t.IsLast ty id

theorem Distinct.intern (h : t.Distinct) (new : Ty) : (t.intern new).2.Distinct := by
  intro id ty hid
  cases hfound : t.idOf? new with
  | some _ =>
    rw [intern_of_isLast (idOf?_eq_some_iff.1 hfound)] at hid ⊢
    exact h id ty hid
  | none =>
    -- an old entry was the last of its type before, and the new one is so now
    have habsent := idOf?_eq_none_iff.1 hfound
    by_cases hindex : id.index = t.size
    · rw [intern_of_absent habsent, get?_push, if_pos hindex, Option.some.injEq] at hid
      rw [intern_of_absent habsent]
      refine isLast_push_iff.2 ?_
      rw [if_pos hid, ← hindex]
    · rw [intern_of_absent habsent, get?_push, if_neg hindex] at hid
      exact (h id ty hid).intern new

end TypeTable

/-! ## Calls -/

/-- A call of a table that makes a type. -/
inductive TypeCall
  | intern (ty : Ty)
  | stringLiteral (s : String)
  | numberLiteral (x : Binary64)
  | booleanLiteral (b : Bool)
  | object (o : ObjectType)
  | union (members : List TypeId)
  | array (element : TypeId)
  | tuple (elements : List TypeId)
  | function (params : List Parameter) (returnType : TypeId)
  | overloaded (signatures : List Signature)
  | parameter (name : String) (constraint : Option TypeId)

namespace TypeCall

def run (t : TypeTable) : TypeCall → TypeId × TypeTable
  | intern ty => t.intern ty
  | stringLiteral s => t.stringLiteral s
  | numberLiteral x => t.numberLiteral x
  | booleanLiteral b => t.booleanLiteral b
  | object o => t.object o
  | union members => t.union members
  | array element => t.array element
  | tuple elements => t.tuple elements
  | function params returnType => t.function params returnType
  | overloaded signatures => t.overloaded signatures
  | parameter name constraint => t.parameter name constraint

/-- The type that a call interns.  A union of one interns nothing. -/
def type? : TypeCall → Option Ty
  | intern ty => some ty
  | stringLiteral s => some (.literal (.string s))
  | numberLiteral x => some (.literal (.number x.plainText))
  | booleanLiteral b => some (.literal (.boolean b))
  | object o => some (.object o)
  | union [_] => none
  | union members => some (.union members)
  | array element => some (.array element)
  | tuple elements => some (.tuple elements)
  | function params returnType => some (.object { callSignatures := [⟨params, returnType⟩] })
  | overloaded signatures => some (.object { callSignatures := signatures })
  | parameter name constraint => some (.parameter name constraint)

/-- **A call interns one type, or leaves the table alone.** -/
theorem table_run (c : TypeCall) (t : TypeTable) :
    (c.run t).2 = match c.type? with
      | some ty => (t.intern ty).2
      | none => t := by
  cases c with
  | union members =>
    match members with
    | [] => rfl
    | [_] => rfl
    | _ :: _ :: _ => rfl
  | _ => rfl

end TypeCall

namespace TypeTable

/-- The table after some calls. -/
def calls (t : TypeTable) (cs : List TypeCall) : TypeTable := cs.foldl (fun t c => (c.run t).2) t

variable {t : TypeTable}

/-- What interning keeps, every call keeps. -/
theorem run_induction {P : TypeTable → Prop} (hintern : ∀ {t}, P t → ∀ ty, P (t.intern ty).2)
    (h : P t) (c : TypeCall) : P (c.run t).2 := by
  rw [c.table_run]
  cases c.type? with
  | none => exact h
  | some ty => exact hintern h ty

/-- **What interning keeps, any calls keep.** -/
theorem calls_induction {P : TypeTable → Prop} (hintern : ∀ {t}, P t → ∀ ty, P (t.intern ty).2)
    (h : P t) (cs : List TypeCall) : P (t.calls cs) := by
  induction cs generalizing t with
  | nil => exact h
  | cons c cs ih => exact ih (run_induction hintern h c)

/-- Entries stay what they are. -/
theorem extends_calls (t : TypeTable) (cs : List TypeCall) : t.Extends (t.calls cs) :=
  calls_induction (P := t.Extends) (fun h ty => h.trans (extends_intern _ ty)) (.refl t) cs

theorem IsLast.calls {ty : Ty} {id : TypeId} (h : t.IsLast ty id) (cs : List TypeCall) :
    (t.calls cs).IsLast ty id :=
  calls_induction (P := (·.IsLast ty id)) (fun h new => h.intern new) h cs

theorem Distinct.calls (h : t.Distinct) (cs : List TypeCall) : (t.calls cs).Distinct :=
  calls_induction (P := Distinct) (fun h new => h.intern new) h cs

/-- The calls that make the primitives. -/
def primitiveCalls : List TypeCall := Primitive.all.map fun p => .intern (.primitive p)

theorem calls_primitiveCalls : (⟨#[]⟩ : TypeTable).calls primitiveCalls = primitives := by
  decide

theorem distinct_primitives : primitives.Distinct := by
  rw [← calls_primitiveCalls]
  refine Distinct.calls (fun id ty hid => ?_) primitiveCalls
  simp [get?] at hid

end TypeTable

/-! ## The map back -/

deriving instance Hashable for Primitive, LiteralType, Parameter, Signature, Property, ObjectType,
  Ty

/-- A table with a map from types to numbers. -/
structure Interner where
  table : TypeTable := ⟨#[]⟩
  ids : Std.HashMap Ty TypeId := ∅

namespace Interner

/-- Adds an entry, to which its type leads from now on. -/
def add (s : Interner) (ty : Ty) : Interner :=
  ⟨s.table.push ty, s.ids.insert ty ⟨s.table.size⟩⟩

def intern (s : Interner) (ty : Ty) : TypeId × Interner :=
  match s.ids[ty]? with
  | some id => (id, s)
  | none => (⟨s.table.size⟩, s.add ty)

def call (s : Interner) (c : TypeCall) : Interner :=
  match c.type? with
  | some ty => (s.intern ty).2
  | none => s

def calls (s : Interner) (cs : List TypeCall) : Interner := cs.foldl call s

/-- The entries of a list one after another, whether or not they were there before. -/
def ofList (types : List Ty) : Interner := types.foldl add {}

/-- The map leads to the last number with a type, and to nothing else. -/
def InStep (s : Interner) : Prop :=
  ∀ ty id, s.ids[ty]? = some id ↔ s.table.IsLast ty id

variable {s : Interner}

theorem inStep_empty : ({} : Interner).InStep := by
  intro ty id
  simp [TypeTable.IsLast, TypeTable.get?]

theorem InStep.add (h : s.InStep) (new : Ty) : (s.add new).InStep := by
  intro ty id
  rw [Interner.add, Std.HashMap.getElem?_insert, TypeTable.isLast_push_iff]
  by_cases heq : new = ty
  · rw [if_pos (beq_iff_eq.2 heq), if_pos heq, Option.some.injEq, eq_comm]
  · rw [if_neg (mt beq_iff_eq.1 heq), if_neg heq]
    exact h ty id

theorem InStep.getElem?_ids (h : s.InStep) (ty : Ty) : s.ids[ty]? = s.table.idOf? ty := by
  refine Option.ext fun id => ?_
  rw [h ty id, TypeTable.idOf?_eq_some_iff]

/-- **The map finds what the table finds**, so both intern alike. -/
theorem InStep.intern_eq (h : s.InStep) (ty : Ty) :
    (s.intern ty).1 = (s.table.intern ty).1 ∧ (s.intern ty).2.table = (s.table.intern ty).2 := by
  rw [Interner.intern, TypeTable.intern, h.getElem?_ids]
  cases s.table.idOf? ty <;> exact ⟨rfl, rfl⟩

theorem InStep.intern (h : s.InStep) (ty : Ty) : (s.intern ty).2.InStep := by
  rw [Interner.intern]
  cases s.ids[ty]? with
  | some id => exact h
  | none => exact h.add ty

/-- One call keeps the map and the table in step. -/
theorem InStep.call (h : s.InStep) (c : TypeCall) :
    (s.call c).InStep ∧ (s.call c).table = (c.run s.table).2 := by
  rw [Interner.call, c.table_run]
  cases c.type? with
  | none => exact ⟨h, rfl⟩
  | some ty => exact ⟨h.intern ty, (h.intern_eq ty).2⟩

/-- **Any calls keep the map and the table in step.** -/
theorem InStep.calls (h : s.InStep) (cs : List TypeCall) :
    (s.calls cs).InStep ∧ (s.calls cs).table = s.table.calls cs := by
  induction cs generalizing s with
  | nil => exact ⟨h, rfl⟩
  | cons c cs ih =>
    obtain ⟨hstep, htable⟩ := h.call c
    rw [TypeTable.calls, List.foldl_cons, ← htable]
    exact ih hstep

/-- A list of types is taken over as it is, and the last of equal entries counts. -/
theorem inStep_ofList (types : List Ty) :
    (ofList types).InStep ∧ (ofList types).table = ⟨types.toArray⟩ := by
  have hadd : ∀ {s : Interner}, s.InStep → (types.foldl Interner.add s).InStep ∧
      (types.foldl Interner.add s).table = ⟨s.table.entries ++ types⟩ := by
    induction types with
    | nil => exact fun hs => ⟨hs, by simp⟩
    | cons ty types ih =>
      intro s hs
      obtain ⟨hstep, htable⟩ := ih (hs.add ty)
      refine ⟨hstep, htable.trans ?_⟩
      simp [Interner.add, TypeTable.push]
  obtain ⟨hstep, htable⟩ := hadd inStep_empty
  exact ⟨hstep, htable.trans (by simp)⟩

end Interner

/-! ## What calls can rely on -/

/-- What calls start from. -/
inductive Start
  | primitives
  | ofList (types : List Ty)

namespace Start

def table : Start → TypeTable
  | primitives => .primitives
  | ofList types => ⟨types.toArray⟩

/-- The primitives are interned like other types; a list is taken over. -/
def interner : Start → Interner
  | primitives => Interner.calls {} TypeTable.primitiveCalls
  | ofList types => .ofList types

theorem inStep_interner (start : Start) :
    start.interner.InStep ∧ start.interner.table = start.table := by
  cases start with
  | primitives =>
    obtain ⟨hstep, htable⟩ := Interner.inStep_empty.calls TypeTable.primitiveCalls
    exact ⟨hstep, htable.trans TypeTable.calls_primitiveCalls⟩
  | ofList types => exact Interner.inStep_ofList types

end Start

/-- **What calls can rely on.**  From the primitives or from any list of types, after any calls, the
map back leads from a type to the last number with it and so does the table, so that both intern
alike.  Interning gives a number that has the type, and adds the type at the end if it is missing
and else nothing.  Whatever is called later, the number keeps its type, the type gets this number
again, and no other type gets it; and so it is with every entry.  After the primitives no type is in
the table twice. -/
theorem interning_calls (start : Start) (cs : List TypeCall) :
    let t := start.table.calls cs
    let s := start.interner.calls cs
    s.table = t ∧
    (∀ ty id, s.ids[ty]? = some id ↔ t.IsLast ty id) ∧
    (∀ ty, t.idOf? ty = s.ids[ty]?) ∧
    (∀ ty, (s.intern ty).1 = (t.intern ty).1 ∧ (s.intern ty).2.table = (t.intern ty).2) ∧
    (∀ ty, (t.intern ty).2.get? (t.intern ty).1 = some ty ∧
      ((∃ id, t.get? id = some ty) → (t.intern ty).2 = t) ∧
      ((∀ id, t.get? id ≠ some ty) → (t.intern ty).2 = t.push ty)) ∧
    (∀ ty later,
      let id := (t.intern ty).1
      let u := (t.intern ty).2.calls later
      u.get? id = some ty ∧ (u.intern ty).1 = id ∧ ∀ other, other ≠ ty → (u.intern other).1 ≠ id) ∧
    (∀ id ty later, t.get? id = some ty → (t.calls later).get? id = some ty) ∧
    (start = .primitives →
      ∀ a b ty, t.get? a = some ty → t.get? b = some ty → a = b) := by
  intro t s
  obtain ⟨hstart, htable⟩ := start.inStep_interner
  obtain ⟨hstep, hs⟩ := hstart.calls cs
  rw [htable] at hs
  have hids : ∀ ty, t.idOf? ty = s.ids[ty]? := by
    intro ty
    rw [hstep.getElem?_ids, hs]
  have hintern : ∀ ty,
      (s.intern ty).1 = (t.intern ty).1 ∧ (s.intern ty).2.table = (t.intern ty).2 := by
    intro ty
    have heq := hstep.intern_eq ty
    rwa [hs] at heq
  refine ⟨hs, fun ty id => ?_, hids, hintern, fun ty => ⟨t.get?_intern ty, ?_, ?_⟩,
    fun ty later => ?_, fun id ty later hid => (t.extends_calls later).entry hid, ?_⟩
  · rw [hstep ty id, hs]
  · rintro ⟨id, hid⟩
    exact TypeTable.table_intern_of_entry hid
  · intro habsent
    rw [TypeTable.intern_of_absent habsent]
  · intro id u
    have hlast : u.IsLast ty id := (t.intern_spec ty).2.calls later
    refine ⟨hlast.1, ?_, fun other hne => TypeTable.intern_ne_of_entry hlast.1 hne⟩
    rw [TypeTable.intern_of_isLast hlast]
  · rintro rfl a b ty ha hb
    have hdistinct : t.Distinct := TypeTable.distinct_primitives.calls cs
    exact (hdistinct a ty ha).unique (hdistinct b ty hb)

/-- An array of numbers, a string and the same array again. -/
def repeatedTypes : Start := .ofList [.array ⟨7⟩, .primitive .string, .array ⟨7⟩]

/-- The second array is found, and found again after more calls; the first one stays. -/
theorem interning_calls_repeated :
    let t := repeatedTypes.table.calls [.tuple [⟨40⟩], .union [⟨0⟩]]
    t.size = 4 ∧ t.IsLast (.array ⟨7⟩) ⟨2⟩ ∧ (t.calls [.array ⟨3⟩]).get? ⟨0⟩ = some (.array ⟨7⟩) ∧
      (((t.intern (.array ⟨7⟩)).2.calls [.array ⟨3⟩]).intern (.array ⟨7⟩)).1 = ⟨2⟩ := by
  intro t
  obtain ⟨-, hmap, hids, -, -, hlater, hkept, -⟩ :=
    interning_calls repeatedTypes [.tuple [⟨40⟩], .union [⟨0⟩]]
  have hfound : t.idOf? (.array ⟨7⟩) = some ⟨2⟩ := by decide
  refine ⟨by decide, (hmap _ _).1 ((hids _).symm.trans hfound), hkept ⟨0⟩ _ _ (by decide), ?_⟩
  exact (hlater (.array ⟨7⟩) [.array ⟨3⟩]).2.1.trans (by decide)

end ResultLint
