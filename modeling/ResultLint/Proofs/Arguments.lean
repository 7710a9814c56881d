import Mathlib.Data.List.Sort
import ResultLint.Proofs.Offers

/-!
# Which arguments should return nothing

An argument should return nothing if some signature of the callee offers a function that does, and
none offers a function that returns a Result.  The positions of these arguments are what recording
the offers one by one finds, in ascending order.

* `TypeTable.Reordered`: the same table with overloads and members of unions in another order.
* `voidArguments_eq_sorted`: the positions are those that are **recorded**.
* `Reordered.voidArguments_eq`: **the answer does not depend on that order.**
* `voidArguments_by_offers`: the positions, by what is offered for them.
-/

namespace ResultLint

/-! ## Order -/

/-- The types are the same but for the order of overloads and of the members of a union. -/
inductive Ty.Reordered : Ty → Ty → Prop
  | refl (ty : Ty) : Reordered ty ty
  | union {members members' : List TypeId} (h : members.Perm members') :
      Reordered (.union members) (.union members')
  | object {o : ObjectType} {calls constructs : List Signature}
      (hcalls : o.callSignatures.Perm calls)
      (hconstructs : o.constructSignatures.Perm constructs) :
      Reordered (.object o)
        (.object { o with callSignatures := calls, constructSignatures := constructs })

namespace TypeTable

variable {t u : TypeTable}

/-- The entries of the tables are the same but for the order of overloads and of the members of
unions. -/
def Reordered (t u : TypeTable) : Prop :=
  List.Forall₂ Ty.Reordered t.entries.toList u.entries.toList

namespace Reordered

variable (h : t.Reordered u)

include h

theorem size_eq : u.size = t.size := h.length_eq.symm

theorem entry_cases (id : TypeId) :
    (t.get? id = none ∧ u.get? id = none) ∨
      ∃ ty ty', t.get? id = some ty ∧ u.get? id = some ty' ∧ ty.Reordered ty' :=
  getElem?_cases_of_forall₂ h id.index

theorem exists_resolve (id : TypeId) :
    ∃ ty ty', t.resolve id = ty ∧ u.resolve id = ty' ∧ ty.Reordered ty' := by
  refine ⟨_, _, rfl, rfl, ?_⟩
  rw [resolve, resolve]
  rcases h.entry_cases id with ⟨ht, hu⟩ | ⟨ty, ty', ht, hu, hr⟩
  · rw [ht, hu]
    exact .refl _
  · rw [ht, hu]
    exact hr

/-! ### One entry -/

theorem property?_eq (id : TypeId) (name : String) : u.property? id name = t.property? id name := by
  obtain ⟨ty, ty', hty, hty', hr⟩ := h.exists_resolve id
  rw [property?, property?, object?, object?, hty, hty']
  cases hr <;> rfl

theorem stringLiteral?_eq (id : TypeId) : u.stringLiteral? id = t.stringLiteral? id := by
  obtain ⟨ty, ty', hty, hty', hr⟩ := h.exists_resolve id
  rw [stringLiteral?, stringLiteral?, hty, hty']
  cases hr <;> rfl

theorem isVoid_eq (id : TypeId) : u.isVoid id = t.isVoid id := by
  obtain ⟨ty, ty', hty, hty', hr⟩ := h.exists_resolve id
  rw [isVoid, isVoid, hty, hty']
  cases hr <;> simp

theorem signatures_perm (kind : CallKind) (id : TypeId) :
    (t.signatures kind id).Perm (u.signatures kind id) := by
  obtain ⟨ty, ty', hty, hty', hr⟩ := h.exists_resolve id
  cases kind with
  | call =>
    rw [signatures, signatures, callSignatures, callSignatures, object?, object?, hty, hty']
    cases hr with
    | object hcalls _ => exact hcalls
    | _ => exact .refl _
  | construct =>
    rw [signatures, signatures, constructSignatures, constructSignatures, object?, object?, hty,
      hty']
    cases hr with
    | object _ hconstructs => exact hconstructs
    | _ => exact .refl _

theorem mem_signatures_iff {kind : CallKind} {id : TypeId} {s : Signature} :
    s ∈ u.signatures kind id ↔ s ∈ t.signatures kind id :=
  (h.signatures_perm kind id).symm.mem_iff

theorem mem_callSignatures_iff {id : TypeId} {s : Signature} :
    s ∈ u.callSignatures id ↔ s ∈ t.callSignatures id :=
  (h.signatures_perm .call id).symm.mem_iff

/-! ### Walks -/

theorem followConstraints_eq (steps : Nat) (id : TypeId) :
    u.followConstraints steps id = t.followConstraints steps id := by
  induction steps generalizing id with
  | zero =>
    rw [followConstraints, followConstraints]
    rcases h.entry_cases id with ⟨ht, hu⟩ | ⟨ty, ty', ht, hu, hr⟩
    · rw [ht, hu]
    · rw [ht, hu]
      cases hr <;> rfl
  | succ steps ih =>
    rw [followConstraints, followConstraints]
    rcases h.entry_cases id with ⟨ht, hu⟩ | ⟨ty, ty', ht, hu, hr⟩
    · rw [ht, hu]
    · rw [ht, hu]
      cases hr with
      | refl =>
        cases ty with
        | parameter name constraint =>
          cases constraint with
          | none => rfl
          | some constraint => exact ih constraint
        | _ => rfl
      | _ => rfl

theorem apparentType_eq (id : TypeId) : u.apparentType id = t.apparentType id := by
  rw [apparentType, apparentType, h.size_eq, h.followConstraints_eq]

theorem member_iff {a b : TypeId} : u.Member a b ↔ t.Member a b := by
  unfold Member
  rcases h.entry_cases a with ⟨ht, hu⟩ | ⟨ty, ty', ht, hu, hr⟩
  · rw [ht, hu]
  · rw [ht, hu]
    cases hr with
    | refl => exact Iff.rfl
    | union hperm => simp [hperm.mem_iff]
    | object _ _ => simp

theorem mem_unionMembers_iff {a m : TypeId} : m ∈ u.unionMembers a ↔ m ∈ t.unionMembers a := by
  have hmember : u.Member = t.Member := by
    funext a b
    exact propext h.member_iff
  have hnone : u.union? m = none ↔ t.union? m = none := by
    rw [union?, union?]
    rcases h.entry_cases m with ⟨ht, hu⟩ | ⟨ty, ty', ht, hu, hr⟩
    · rw [ht, hu]
    · rw [ht, hu]
      cases hr <;> simp
  rw [TypeTable.mem_unionMembers_iff, TypeTable.mem_unionMembers_iff, hnone, hmember]

/-- **The apparent members are the same**, in some order. -/
theorem mem_apparentMembers_iff {a m : TypeId} :
    m ∈ u.apparentMembers a ↔ m ∈ t.apparentMembers a := by
  have hresolves : u.Resolves = t.Resolves := by
    funext a b
    rw [Resolves, Resolves, h.apparentType_eq, h.mem_unionMembers_iff]
  rw [TypeTable.mem_apparentMembers_iff, TypeTable.mem_apparentMembers_iff, h.apparentType_eq,
    h.apparentType_eq, hresolves]
  simp only [h.mem_unionMembers_iff]

theorem offers_iff {count position : Nat} {s : Signature} {E : TypeId} :
    s.Offers u count position E ↔ s.Offers t count position E := by
  have hrest : ∀ id i, u.restType? id i = t.restType? id i := by
    intro id i
    obtain ⟨ty, ty', hty, hty', hr⟩ := h.exists_resolve (t.apparentType id)
    rw [restType?, restType?, h.apparentType_eq, hty, hty']
    cases hr <;> rfl
  rw [← mem_signatureOffers_iff, ← mem_signatureOffers_iff, signatureOffers, signatureOffers]
  simp only [parameterOffer?, hrest]

/-! ### Verdicts -/

variable (shape : ResultShape)

theorem isResultLike_eq (id : TypeId) :
    (⟨u, shape⟩ : Classifier).isResultLike id = (⟨t, shape⟩ : Classifier).isResultLike id := by
  have hmarkers : ∀ tag v, v ∈ (⟨u, shape⟩ : Classifier).markers tag ↔
      v ∈ (⟨t, shape⟩ : Classifier).markers tag := by
    intro tag v
    simp only [Classifier.markers, List.mem_filter, List.mem_filterMap, h.mem_apparentMembers_iff,
      h.stringLiteral?_eq]
  rw [Classifier.isResultLike, Classifier.isResultLike, h.property?_eq]
  dsimp only
  cases t.property? id shape.discriminant with
  | none => rfl
  | some tag =>
    rw [Bool.eq_iff_iff]
    simp only [List.any_eq_true, hmarkers, h.property?_eq]

theorem isSometimesResult_eq (id : TypeId) :
    (⟨u, shape⟩ : Classifier).isSometimesResult id =
      (⟨t, shape⟩ : Classifier).isSometimesResult id := by
  rw [Bool.eq_iff_iff, Classifier.isSometimesResult_iff, Classifier.isSometimesResult_iff]
  simp only [h.mem_apparentMembers_iff, h.isResultLike_eq shape]

theorem isResultReturning_eq (id : TypeId) :
    (⟨u, shape⟩ : Classifier).isResultReturning id =
      (⟨t, shape⟩ : Classifier).isResultReturning id := by
  rw [Bool.eq_iff_iff, Classifier.isResultReturning_iff, Classifier.isResultReturning_iff]
  simp only [h.mem_apparentMembers_iff, h.mem_callSignatures_iff, h.isSometimesResult_eq shape]

theorem isVoidReturning_eq (id : TypeId) :
    (⟨u, shape⟩ : Classifier).isVoidReturning id =
      (⟨t, shape⟩ : Classifier).isVoidReturning id := by
  rw [Bool.eq_iff_iff, Classifier.isVoidReturning_iff, Classifier.isVoidReturning_iff,
    h.isResultReturning_eq shape]
  simp only [h.mem_apparentMembers_iff, h.mem_callSignatures_iff, h.isVoid_eq]

end Reordered

end TypeTable

/-! ## Positions -/

namespace Classifier

theorem voidArguments_ascending (c : Classifier) (callee : TypeId) (kind : CallKind)
    (count : Option Nat) : (c.voidArguments callee kind count).Pairwise (· < ·) := by
  cases count with
  | none => exact .nil
  | some count => exact List.pairwise_lt_range.filter _

/-- **The positions are those that are recorded**, in ascending order. -/
theorem voidArguments_eq_sorted (c : Classifier) (callee : TypeId) (kind : CallKind)
    (count : Option Nat) :
    c.voidArguments callee kind count = (c.recordedVoids callee kind count).toList.mergeSort := by
  set recorded := c.recordedVoids callee kind count with hrecorded
  have hsorted : recorded.toList.mergeSort.Pairwise (· < ·) := by
    have hdistinct : recorded.toList.Nodup := Std.HashSet.distinct_toList.imp ne_of_beq_false
    have hle : recorded.toList.mergeSort.Pairwise (· ≤ ·) := List.pairwise_mergeSort' _ _
    have hne : recorded.toList.mergeSort.Nodup := (List.mergeSort_perm _ _).nodup_iff.2 hdistinct
    exact (hle.and hne).imp fun h => lt_of_le_of_ne h.1 h.2
  refine (c.voidArguments_ascending callee kind count).eq_of_mem_iff hsorted fun position => ?_
  rw [List.mem_mergeSort, Std.HashSet.mem_toList, hrecorded]
  cases count with
  | none => simp [voidArguments, recordedVoids]
  | some count => rw [mem_voidArguments_iff_offers, mem_recordedVoids_iff]

variable {c : Classifier}

/-- Below both counts the answers agree. -/
theorem mem_voidArguments_of_lt {callee : TypeId} {kind : CallKind} {n m position : Nat}
    (hn : position < n) (hm : position < m) :
    position ∈ c.voidArguments callee kind (some n) ↔
      position ∈ c.voidArguments callee kind (some m) := by
  have hoffers : ∀ (s : Signature) E,
      s.Offers c.types n position E ↔ s.Offers c.types m position E :=
    fun s E => ⟨.of_lt hm, .of_lt hn⟩
  simp only [mem_voidArguments_iff_offers, hoffers]

end Classifier

/-- **The answer does not depend on the order of overloads and of the members of unions.** -/
theorem TypeTable.Reordered.voidArguments_eq {t u : TypeTable} (h : t.Reordered u)
    (shape : ResultShape) (callee : TypeId) (kind : CallKind) (count : Option Nat) :
    (⟨u, shape⟩ : Classifier).voidArguments callee kind count =
      (⟨t, shape⟩ : Classifier).voidArguments callee kind count := by
  refine (Classifier.voidArguments_ascending _ _ _ _).eq_of_mem_iff
    (Classifier.voidArguments_ascending _ _ _ _) fun position => ?_
  cases count with
  | none => exact Iff.rfl
  | some count =>
    simp only [Classifier.mem_voidArguments_iff_offers, h.mem_apparentMembers_iff,
      h.mem_signatures_iff, h.offers_iff, h.isVoidReturning_eq shape, h.isResultReturning_eq shape]

/-- **Which arguments should return nothing.**  Recording what the signatures of the callee offer
finds those for which some signature offers a function that returns nothing and none offers one that
returns a Result; none without arguments.  The order of overloads and of the members of unions plays
no part, and neither does the number of arguments for those that there are. -/
theorem Classifier.voidArguments_by_offers (c : Classifier) (callee : TypeId) (kind : CallKind) :
    (∀ count, c.voidArguments callee kind count =
      (c.recordedVoids callee kind count).toList.mergeSort) ∧
    c.voidArguments callee kind none = [] ∧
    (∀ n p, p ∈ c.recordedVoids callee kind (some n) ↔
      (∃ m ∈ c.types.apparentMembers callee, ∃ s ∈ c.types.signatures kind m,
        ∃ E, s.Offers c.types n p E ∧ c.isVoidReturning E = true) ∧
      ¬ ∃ m ∈ c.types.apparentMembers callee, ∃ s ∈ c.types.signatures kind m,
        ∃ E, s.Offers c.types n p E ∧ c.isResultReturning E = true) ∧
    (∀ u, c.types.Reordered u → ∀ count,
      (⟨u, c.shape⟩ : Classifier).voidArguments callee kind count =
        c.voidArguments callee kind count) ∧
    (∀ n m, n ≤ m → ∀ p < n,
      (p ∈ c.voidArguments callee kind (some n) ↔ p ∈ c.voidArguments callee kind (some m))) := by
  refine ⟨c.voidArguments_eq_sorted callee kind, rfl, fun n p => mem_recordedVoids_iff,
    fun u hu count => ?_, fun n m hnm p hp => ?_⟩
  · exact hu.voidArguments_eq c.shape callee kind count
  · exact mem_voidArguments_of_lt hp (by omega)

/-- A Result, the functions that return nothing and a Result, an array of the first and a tuple of
both, and a function with the tuple for its rest. -/
def callbackTypes : Array Ty :=
  TypeTable.primitives.entries ++ #[
    .literal (.string "success"),
    .object { properties := [⟨"tag", ⟨9⟩⟩, ⟨"success", ⟨7⟩⟩] },
    .object { callSignatures := [⟨[], ⟨3⟩⟩] },
    .object { callSignatures := [⟨[], ⟨10⟩⟩] },
    .array ⟨11⟩,
    .tuple [⟨12⟩, ⟨11⟩],
    .object { callSignatures := [⟨[⟨"x", ⟨7⟩, false⟩, ⟨"rest", ⟨14⟩, true⟩], ⟨3⟩⟩] }]

/-- With a function that has these overloads, and a union. -/
def overloadsTable (overloads : List Signature) (members : List TypeId) : TypeTable :=
  ⟨callbackTypes ++ #[.object { callSignatures := overloads }, .union members]⟩

theorem overloadsTable_reordered {overloads overloads' : List Signature}
    {members members' : List TypeId} (ho : overloads.Perm overloads')
    (hm : members.Perm members') :
    (overloadsTable overloads members).Reordered (overloadsTable overloads' members') := by
  rw [TypeTable.Reordered, overloadsTable, overloadsTable, Array.toList_append, Array.toList_append]
  refine List.rel_append (List.forall₂_same.2 fun ty _ => .refl ty) ?_
  exact .cons (.object (o := { callSignatures := overloads }) ho .nil) (.cons (.union hm) .nil)

/-- Takes functions that return nothing. -/
def takesNothing : Signature := ⟨[⟨"f", ⟨11⟩, false⟩, ⟨"rest", ⟨13⟩, true⟩], ⟨3⟩⟩

/-- Takes a function that returns a Result. -/
def takesResult : Signature := ⟨[⟨"f", ⟨12⟩, false⟩], ⟨3⟩⟩

/-- The first two arguments may return Results, by the overload and by the tuple; the others may
not.  So it is in another order, and with one argument less. -/
theorem voidArguments_overloads :
    (⟨overloadsTable [takesResult, takesNothing] [⟨16⟩, ⟨15⟩], {}⟩ : Classifier).voidArguments
      ⟨17⟩ .call (some 4) = [2, 3] ∧
    2 ∈ (⟨overloadsTable [takesNothing, takesResult] [⟨15⟩, ⟨16⟩], {}⟩ : Classifier).voidArguments
      ⟨17⟩ .call (some 3) := by
  obtain ⟨_, _, _, horder, hcount⟩ := Classifier.voidArguments_by_offers
    ⟨overloadsTable [takesNothing, takesResult] [⟨15⟩, ⟨16⟩], {}⟩ ⟨17⟩ .call
  have hfour : (⟨overloadsTable [takesNothing, takesResult] [⟨15⟩, ⟨16⟩], {}⟩ :
      Classifier).voidArguments ⟨17⟩ .call (some 4) = [2, 3] := by cbv
  refine ⟨(horder _ (overloadsTable_reordered (.swap _ _ _) (.swap _ _ _)) _).trans hfour, ?_⟩
  rw [hcount 3 4 (by decide) 2 (by decide), hfour]
  decide

end ResultLint
