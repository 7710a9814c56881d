import ResultLint.Analysis.Callable
import ResultLint.Proofs.Leaves

/-!
# Result types by their leaves

The classifier judges a type by its apparent members.  In a well-formed table these are the leaves,
so each verdict has a description without a walk, and the verdicts on a union or on a parameter
follow from those on the types that it stands for.

* `Classifier.ResultLike`: what it takes for an entry to look like a Result.
* `isResultLike_iff`, `mem_apparentMembers_union_iff`, `mem_apparentMembers_constraint_iff`: the
  facts from which both main statements are put together.
* `classify_by_leaves`: **the verdicts of the classifier, by leaves.**
* `verdicts_compose`: **the verdicts on unions and parameters, by those on members and
  constraints.**
-/

namespace ResultLint

/-! ## Properties -/

/-- The first property of that name. -/
def ObjectType.FirstProperty (o : ObjectType) (name : String) (p : Property) : Prop :=
  ∃ before after, o.properties = before ++ p :: after ∧ p.name = name ∧ ∀ q ∈ before, q.name ≠ name

theorem ObjectType.property?_eq_some_iff {o : ObjectType} {name : String} {r : TypeId} :
    o.property? name = some r ↔ ∃ p, o.FirstProperty name p ∧ p.type = r := by
  rw [property?, Option.map_eq_some_iff]
  refine exists_congr fun p => and_congr_left fun _ => ?_
  rw [List.find?_eq_some_iff_append]
  simp only [decide_eq_true_eq, decide_eq_false_iff_not, Bool.not_eq_true', FirstProperty]
  constructor
  · rintro ⟨hp, before, after, he, hb⟩
    exact ⟨before, after, he, hp, hb⟩
  · rintro ⟨before, after, he, hp, hb⟩
    exact ⟨hp, before, after, he, hb⟩

theorem ObjectType.isSome_property?_iff {o : ObjectType} {name : String} :
    (o.property? name).isSome = true ↔ ∃ p ∈ o.properties, p.name = name := by
  simp [property?]

namespace TypeTable

variable {t : TypeTable}

theorem object?_eq_some_iff {id : TypeId} {o : ObjectType} :
    t.object? id = some o ↔ t.get? id = some (.object o) := by
  rw [object?, resolve]
  cases h : t.get? id with
  | none => simp
  | some ty => cases ty <;> simp

theorem stringLiteral?_eq_some_iff {id : TypeId} {v : String} :
    t.stringLiteral? id = some v ↔ t.get? id = some (.literal (.string v)) := by
  rw [stringLiteral?, resolve]
  cases h : t.get? id with
  | none => simp
  | some ty =>
    cases ty with
    | literal l => cases l <;> simp
    | _ => simp

theorem property?_eq_some_iff {id r : TypeId} {name : String} :
    t.property? id name = some r ↔
      ∃ o, t.get? id = some (.object o) ∧ ∃ p, o.FirstProperty name p ∧ p.type = r := by
  rw [property?, Option.bind_eq_some_iff]
  simp only [object?_eq_some_iff, ObjectType.property?_eq_some_iff]

theorem WellFormed.contains_firstProperty (h : t.WellFormed) {id : TypeId} {o : ObjectType}
    {name : String} {p : Property} (ho : t.get? id = some (.object o))
    (hp : o.FirstProperty name p) : t.contains p.type = true := by
  obtain ⟨before, after, he, _⟩ := hp
  exact h.mentioned ho (.property (by rw [he]; simp))

end TypeTable

/-! ## What looks like a Result -/

namespace Classifier

variable {c : Classifier}

/-- An object whose discriminant comes down to a marker, among others, and that has a property
named after the marker. -/
def ResultLike (c : Classifier) (m : TypeId) : Prop :=
  ∃ o p l v, c.types.get? m = some (.object o) ∧ o.FirstProperty c.shape.discriminant p ∧
    c.types.Leaf p.type l ∧ c.types.get? l = some (.literal (.string v)) ∧
    (v = c.shape.success ∨ v = c.shape.failure) ∧ ∃ q ∈ o.properties, q.name = v

theorem mem_markers_iff (h : c.types.WellFormed) {tag : TypeId} (ht : c.types.contains tag = true)
    {v : String} :
    v ∈ c.markers tag ↔ (v = c.shape.success ∨ v = c.shape.failure) ∧
      ∃ l, c.types.Leaf tag l ∧ c.types.get? l = some (.literal (.string v)) := by
  simp only [markers, ResultShape.isMarker, List.mem_filter, List.mem_filterMap,
    h.mem_apparentMembers_iff_leaf ht, TypeTable.stringLiteral?_eq_some_iff, Bool.or_eq_true,
    decide_eq_true_eq]
  exact and_comm

/-- **The classifier finds exactly the entries that look like Results.** -/
theorem isResultLike_iff (h : c.types.WellFormed) {m : TypeId} :
    c.isResultLike m = true ↔ c.ResultLike m := by
  rw [isResultLike]
  constructor
  · intro hm
    split at hm
    · exact absurd hm (by decide)
    next tag htag =>
      obtain ⟨o, ho, p, hp, rfl⟩ := TypeTable.property?_eq_some_iff.1 htag
      obtain ⟨v, hv, hq⟩ := List.any_eq_true.1 hm
      obtain ⟨hmarker, l, hl, hlit⟩ := (mem_markers_iff h (h.contains_firstProperty ho hp)).1 hv
      rw [TypeTable.property?, TypeTable.object?_eq_some_iff.2 ho, Option.bind_some,
        ObjectType.isSome_property?_iff] at hq
      exact ⟨o, p, l, v, ho, hp, hl, hlit, hmarker, hq⟩
  · rintro ⟨o, p, l, v, ho, hp, hl, hlit, hmarker, hq⟩
    have htag : c.types.property? m c.shape.discriminant = some p.type :=
      TypeTable.property?_eq_some_iff.2 ⟨o, ho, p, hp, rfl⟩
    have hv : v ∈ c.markers p.type :=
      (mem_markers_iff h (h.contains_firstProperty ho hp)).2 ⟨hmarker, l, hl, hlit⟩
    rw [htag]
    refine List.any_eq_true.2 ⟨v, hv, ?_⟩
    rwa [TypeTable.property?, TypeTable.object?_eq_some_iff.2 ho, Option.bind_some,
      ObjectType.isSome_property?_iff]

theorem ne_nil_iff_exists_mem {α : Type} {l : List α} : l ≠ [] ↔ ∃ a, a ∈ l :=
  ⟨List.exists_mem_of_ne_nil l, fun ⟨_, ha⟩ => List.ne_nil_of_mem ha⟩

theorem isSometimesResult_iff {id : TypeId} :
    c.isSometimesResult id = true ↔ ∃ m ∈ c.types.apparentMembers id, c.isResultLike m = true := by
  rw [isSometimesResult, List.any_eq_true]

theorem isAlwaysResult_iff {id : TypeId} :
    c.isAlwaysResult id = true ↔ (∃ m, m ∈ c.types.apparentMembers id) ∧
      ∀ m ∈ c.types.apparentMembers id, c.isResultLike m = true := by
  rw [← ne_nil_iff_exists_mem]
  simp [isAlwaysResult]

/-- **The verdicts of the classifier, by leaves.**  In a well-formed table the apparent members of a
type are its leaves; it is sometimes a Result if a leaf looks like one, and always a Result if there
are leaves and all of them do. -/
theorem classify_by_leaves (h : c.types.WellFormed) {id : TypeId}
    (hid : c.types.contains id = true) :
    (∀ m, m ∈ c.types.apparentMembers id ↔ c.types.Leaf id m) ∧
    (∀ m, c.isResultLike m = true ↔ c.ResultLike m) ∧
    (c.isSometimesResult id = true ↔ ∃ m, c.types.Leaf id m ∧ c.ResultLike m) ∧
    (c.isAlwaysResult id = true ↔
      (∃ m, c.types.Leaf id m) ∧ ∀ m, c.types.Leaf id m → c.ResultLike m) := by
  have hleaf : ∀ m, m ∈ c.types.apparentMembers id ↔ c.types.Leaf id m :=
    fun m => h.mem_apparentMembers_iff_leaf hid
  refine ⟨hleaf, fun m => isResultLike_iff h, ?_, ?_⟩
  · rw [isSometimesResult_iff]
    simp only [hleaf, isResultLike_iff h]
  · rw [isAlwaysResult_iff]
    simp only [hleaf, isResultLike_iff h]

/-- The primitives, the type `"success"`, a Result, a parameter `T` and the union of both that is
the constraint of `T`, and a parameter `U` without constraint. -/
def recursiveTable : TypeTable :=
  ⟨TypeTable.primitives.entries ++ #[
    .literal (.string "success"),
    .object { properties := [⟨"tag", ⟨9⟩⟩, ⟨"success", ⟨7⟩⟩] },
    .parameter "T" (some ⟨12⟩),
    .union [⟨10⟩, ⟨11⟩],
    .parameter "U" none]⟩

theorem recursiveTable_wellFormed : recursiveTable.WellFormed :=
  TypeTable.wellFormed_iff.2 ⟨rfl, rfl⟩

/-- Of `T` and the union, which stand for each other, only the Result is left. -/
theorem classify_recursive_union :
    recursiveTable.WellFormed ∧ recursiveTable.contains ⟨12⟩ = true ∧
    (∀ m, recursiveTable.Leaf ⟨12⟩ m ↔ m = ⟨10⟩) ∧
    (⟨recursiveTable, {}⟩ : Classifier).ResultLike ⟨10⟩ := by
  have hid : recursiveTable.contains ⟨12⟩ = true := rfl
  obtain ⟨hleaf, hlike, _, _⟩ :=
    classify_by_leaves (c := ⟨recursiveTable, {}⟩) recursiveTable_wellFormed hid
  have hm : recursiveTable.apparentMembers ⟨12⟩ = [⟨10⟩, ⟨10⟩] := by cbv
  refine ⟨recursiveTable_wellFormed, hid, fun m => ?_, (hlike ⟨10⟩).1 (by cbv)⟩
  have h := hleaf m
  rw [hm] at h
  simpa using h.symm

/-! ## Unions and parameters -/

/-- **The apparent members of a union are those of its members.** -/
theorem mem_apparentMembers_union_iff {t : TypeTable} (h : t.WellFormed) {u m : TypeId}
    {members : List TypeId} (hu : t.get? u = some (.union members)) :
    m ∈ t.apparentMembers u ↔ ∃ x ∈ members, m ∈ t.apparentMembers x := by
  rw [h.mem_apparentMembers_iff_leaf (TypeTable.contains_iff.2 ⟨_, hu⟩),
    TypeTable.leaf_union_iff hu]
  refine exists_congr fun x => and_congr_right fun hx => ?_
  rw [h.mem_apparentMembers_iff_leaf (h.mentioned hu (.member hx))]

/-- **The apparent members of a parameter are those of its constraint.** -/
theorem mem_apparentMembers_constraint_iff {t : TypeTable} (h : t.WellFormed) {a b m : TypeId}
    (hab : t.Constraint a b) : m ∈ t.apparentMembers a ↔ m ∈ t.apparentMembers b := by
  obtain ⟨name, ha⟩ := hab
  rw [h.mem_apparentMembers_iff_leaf (TypeTable.contains_iff.2 ⟨_, ha⟩),
    h.mem_apparentMembers_iff_leaf (h.mentioned ha (.constraint name b)),
    TypeTable.leaf_constraint_iff ⟨name, ha⟩]

theorem mem_apparentMembers_unconstrained_iff {t : TypeTable} (h : t.WellFormed) {a m : TypeId}
    {name : String} (ha : t.get? a = some (.parameter name none)) :
    m ∈ t.apparentMembers a ↔ m = .unknown := by
  rw [h.mem_apparentMembers_iff_leaf (TypeTable.contains_iff.2 ⟨_, ha⟩),
    TypeTable.leaf_unconstrained_iff ha]

/-! ## Verdicts by apparent members -/

theorem isResultArrayOrTuple_iff {id : TypeId} :
    c.isResultArrayOrTuple id = true ↔ ∃ m ∈ c.types.apparentMembers id,
      ∃ e ∈ c.types.elementTypes m, c.isSometimesResult e = true := by
  simp only [isResultArrayOrTuple, List.any_eq_true]

/-- The call signatures of a type are those of its apparent members. -/
theorem exists_callSignatures_iff {id : TypeId} {P : Signature → Prop} :
    (∃ s ∈ c.callSignatures id, P s) ↔
      ∃ m ∈ c.types.apparentMembers id, ∃ s ∈ c.types.callSignatures m, P s := by
  simp only [callSignatures, TypeTable.apparentSignatures, List.mem_flatMap, TypeTable.signatures]
  constructor
  · rintro ⟨s, ⟨m, hm, hs⟩, hP⟩
    exact ⟨m, hm, s, hs, hP⟩
  · rintro ⟨m, hm, s, hs, hP⟩
    exact ⟨s, ⟨m, hm, hs⟩, hP⟩

theorem isResultReturning_iff {id : TypeId} :
    c.isResultReturning id = true ↔ ∃ m ∈ c.types.apparentMembers id,
      ∃ s ∈ c.types.callSignatures m, c.isSometimesResult s.returnType = true := by
  rw [isResultReturning, List.any_eq_true, exists_callSignatures_iff]

theorem isVoidReturning_iff {id : TypeId} :
    c.isVoidReturning id = true ↔ (∃ m ∈ c.types.apparentMembers id,
      ∃ s ∈ c.types.callSignatures m, c.types.isVoid s.returnType = true) ∧
      c.isResultReturning id = false := by
  rw [← exists_callSignatures_iff, ← List.any_eq_true]
  simp only [isVoidReturning, isResultReturning, Bool.and_eq_true, Bool.not_eq_true']

/-- All five verdicts look only at which apparent members there are. -/
theorem verdicts_congr {a b : TypeId}
    (h : ∀ m, m ∈ c.types.apparentMembers a ↔ m ∈ c.types.apparentMembers b) :
    c.isSometimesResult a = c.isSometimesResult b ∧ c.isAlwaysResult a = c.isAlwaysResult b ∧
    c.isResultArrayOrTuple a = c.isResultArrayOrTuple b ∧
    c.isResultReturning a = c.isResultReturning b ∧ c.isVoidReturning a = c.isVoidReturning b := by
  have hresult : c.isResultReturning a = c.isResultReturning b := by
    rw [Bool.eq_iff_iff, isResultReturning_iff, isResultReturning_iff]
    simp only [h]
  refine ⟨?_, ?_, ?_, hresult, ?_⟩
  · rw [Bool.eq_iff_iff, isSometimesResult_iff, isSometimesResult_iff]
    simp only [h]
  · rw [Bool.eq_iff_iff, isAlwaysResult_iff, isAlwaysResult_iff]
    simp only [h]
  · rw [Bool.eq_iff_iff, isResultArrayOrTuple_iff, isResultArrayOrTuple_iff]
    simp only [h]
  · rw [Bool.eq_iff_iff, isVoidReturning_iff, isVoidReturning_iff, hresult]
    simp only [h]

theorem exists_apparentMembers_union_iff (h : c.types.WellFormed) {u : TypeId}
    {members : List TypeId} (hu : c.types.get? u = some (.union members)) {P : TypeId → Prop} :
    (∃ m ∈ c.types.apparentMembers u, P m) ↔
      ∃ x ∈ members, ∃ m ∈ c.types.apparentMembers x, P m := by
  simp only [mem_apparentMembers_union_iff h hu]
  constructor
  · rintro ⟨m, ⟨x, hx, hm⟩, hP⟩
    exact ⟨x, hx, m, hm, hP⟩
  · rintro ⟨x, hx, m, hm, hP⟩
    exact ⟨m, ⟨x, hx, hm⟩, hP⟩

theorem isResultReturning_union_iff (h : c.types.WellFormed) {u : TypeId} {members : List TypeId}
    (hu : c.types.get? u = some (.union members)) :
    c.isResultReturning u = true ↔ ∃ m ∈ members, c.isResultReturning m = true := by
  simp only [isResultReturning_iff]
  exact exists_apparentMembers_union_iff h hu

/-- A union is always a Result if something is left of it and all members are of which something
is left. -/
theorem isAlwaysResult_union_iff (h : c.types.WellFormed) {u : TypeId} {members : List TypeId}
    (hu : c.types.get? u = some (.union members)) :
    c.isAlwaysResult u = true ↔ c.types.apparentMembers u ≠ [] ∧
      ∀ m ∈ members, c.types.apparentMembers m ≠ [] → c.isAlwaysResult m = true := by
  rw [isAlwaysResult_iff, ← ne_nil_iff_exists_mem]
  refine and_congr_right fun _ => ?_
  constructor
  · intro hall x hx hne
    refine isAlwaysResult_iff.2 ⟨ne_nil_iff_exists_mem.1 hne, fun m hm => ?_⟩
    exact hall m ((mem_apparentMembers_union_iff h hu).2 ⟨x, hx, hm⟩)
  · intro hall m hm
    obtain ⟨x, hx, hmx⟩ := (mem_apparentMembers_union_iff h hu).1 hm
    have hx' := hall x hx (List.ne_nil_of_mem hmx)
    exact (isAlwaysResult_iff.1 hx').2 m hmx

/-- A union returns nothing if some member returns nothing and no member returns a Result. -/
theorem isVoidReturning_union_iff (h : c.types.WellFormed) {u : TypeId} {members : List TypeId}
    (hu : c.types.get? u = some (.union members)) :
    c.isVoidReturning u = true ↔ (∃ m ∈ members, c.isVoidReturning m = true) ∧
      ∀ m ∈ members, c.isResultReturning m = false := by
  have hno : c.isResultReturning u = false ↔ ∀ m ∈ members, c.isResultReturning m = false := by
    rw [← Bool.not_eq_true, isResultReturning_union_iff h hu]
    simp
  rw [isVoidReturning_iff, hno]
  refine and_congr_left fun hnone => ?_
  rw [exists_apparentMembers_union_iff h hu]
  refine exists_congr fun x => and_congr_right fun hx => ?_
  rw [isVoidReturning_iff, and_iff_left (hnone x hx)]

/-- `unknown` is no Result and no function. -/
theorem verdicts_of_unknown (h : c.types.WellFormed) {a : TypeId}
    (ha : ∀ m, m ∈ c.types.apparentMembers a ↔ m = .unknown) :
    c.isSometimesResult a = false ∧ c.isAlwaysResult a = false ∧
    c.isResultArrayOrTuple a = false ∧ c.isResultReturning a = false ∧
    c.isVoidReturning a = false := by
  have hres : c.types.resolve .unknown = .primitive .unknown :=
    TypeTable.resolve_of_get? (h.primitive .unknown)
  have hlike : c.isResultLike .unknown = false := by
    simp [isResultLike, TypeTable.property?, TypeTable.object?, hres]
  have hsigs : c.types.callSignatures .unknown = [] := by
    simp [TypeTable.callSignatures, TypeTable.object?, hres]
  have helems : c.types.elementTypes .unknown = [] := by
    simp [TypeTable.elementTypes, hres]
  simp only [← Bool.not_eq_true, isSometimesResult_iff, isAlwaysResult_iff,
    isResultArrayOrTuple_iff, isResultReturning_iff, isVoidReturning_iff, ha]
  simp [hlike, hsigs, helems]

theorem isSometimesResult_of_isAlwaysResult {id : TypeId} (h : c.isAlwaysResult id = true) :
    c.isSometimesResult id = true := by
  obtain ⟨⟨m, hm⟩, hall⟩ := isAlwaysResult_iff.1 h
  exact isSometimesResult_iff.2 ⟨m, hm, hall m hm⟩

/-- **The verdicts compose.**  In a well-formed table the verdicts on a union are those on its
members, put together, and the verdicts on a parameter are those on its constraint, all negative
without one.  In any table what is always a Result is sometimes one, and no function returns both
nothing and a Result. -/
theorem verdicts_compose :
    (∀ c : Classifier, c.types.WellFormed →
      (∀ u members, c.types.get? u = some (.union members) →
        (c.isSometimesResult u = true ↔ ∃ m ∈ members, c.isSometimesResult m = true) ∧
        (c.isResultArrayOrTuple u = true ↔ ∃ m ∈ members, c.isResultArrayOrTuple m = true) ∧
        (c.isResultReturning u = true ↔ ∃ m ∈ members, c.isResultReturning m = true) ∧
        (c.isAlwaysResult u = true ↔ c.types.apparentMembers u ≠ [] ∧
          ∀ m ∈ members, c.types.apparentMembers m ≠ [] → c.isAlwaysResult m = true) ∧
        (c.isVoidReturning u = true ↔ (∃ m ∈ members, c.isVoidReturning m = true) ∧
          ∀ m ∈ members, c.isResultReturning m = false)) ∧
      (∀ p name k, c.types.get? p = some (.parameter name (some k)) →
        c.isSometimesResult p = c.isSometimesResult k ∧
        c.isAlwaysResult p = c.isAlwaysResult k ∧
        c.isResultArrayOrTuple p = c.isResultArrayOrTuple k ∧
        c.isResultReturning p = c.isResultReturning k ∧
        c.isVoidReturning p = c.isVoidReturning k) ∧
      (∀ p name, c.types.get? p = some (.parameter name none) →
        c.isSometimesResult p = false ∧ c.isAlwaysResult p = false ∧
        c.isResultArrayOrTuple p = false ∧ c.isResultReturning p = false ∧
        c.isVoidReturning p = false)) ∧
    ∀ (c : Classifier) (id : TypeId),
      (c.isAlwaysResult id = true → c.isSometimesResult id = true) ∧
      ¬ (c.isVoidReturning id = true ∧ c.isResultReturning id = true) := by
  refine ⟨fun c h => ⟨fun u members hu => ?_, fun p name k hp => ?_, fun p name hp => ?_⟩,
    fun c id => ⟨isSometimesResult_of_isAlwaysResult, ?_⟩⟩
  · refine ⟨?_, ?_, isResultReturning_union_iff h hu, isAlwaysResult_union_iff h hu,
      isVoidReturning_union_iff h hu⟩
    · simp only [isSometimesResult_iff]
      exact exists_apparentMembers_union_iff h hu
    · simp only [isResultArrayOrTuple_iff]
      exact exists_apparentMembers_union_iff h hu
  · exact verdicts_congr fun m => mem_apparentMembers_constraint_iff h ⟨name, hp⟩
  · exact verdicts_of_unknown h fun m => mem_apparentMembers_unconstrained_iff h hp
  · rintro ⟨hv, hr⟩
    rw [(isVoidReturning_iff.1 hv).2] at hr
    exact absurd hr (by decide)

/-- The union and its parameter `T` agree although each stands for the other, and `U` is nothing. -/
theorem recursive_verdicts_compose :
    recursiveTable.WellFormed ∧
    recursiveTable.get? ⟨12⟩ = some (.union [⟨10⟩, ⟨11⟩]) ∧
    recursiveTable.get? ⟨11⟩ = some (.parameter "T" (some ⟨12⟩)) ∧
    recursiveTable.get? ⟨13⟩ = some (.parameter "U" none) ∧
    (⟨recursiveTable, {}⟩ : Classifier).isSometimesResult ⟨12⟩ = true ∧
    (⟨recursiveTable, {}⟩ : Classifier).isSometimesResult ⟨11⟩ = true ∧
    (⟨recursiveTable, {}⟩ : Classifier).isAlwaysResult ⟨13⟩ = false := by
  obtain ⟨hwf, -⟩ := verdicts_compose
  obtain ⟨hunion, hparameter, hfree⟩ := hwf ⟨recursiveTable, {}⟩ recursiveTable_wellFormed
  have hu : recursiveTable.get? ⟨12⟩ = some (.union [⟨10⟩, ⟨11⟩]) := rfl
  have hp : recursiveTable.get? ⟨11⟩ = some (.parameter "T" (some ⟨12⟩)) := rfl
  have hn : recursiveTable.get? ⟨13⟩ = some (.parameter "U" none) := rfl
  have hsome : (⟨recursiveTable, {}⟩ : Classifier).isSometimesResult ⟨12⟩ = true :=
    (hunion _ _ hu).1.2 ⟨⟨10⟩, by simp, by cbv⟩
  exact ⟨recursiveTable_wellFormed, hu, hp, hn, hsome, (hparameter _ _ _ hp).1.trans hsome,
    (hfree _ _ hn).2.1⟩

end Classifier

end ResultLint
