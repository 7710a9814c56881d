import Std.Data.HashSet.Lemmas
import ResultLint.Proofs.Alike.Verdicts

/-!
# What signatures offer

The signatures of a callee offer types for the argument at a position: the parameter there offers
its own type, and a rest parameter at or before it what its array or tuple holds.

One way to find the arguments that should return nothing is to go through the signatures of the
callee and **record** every offer: the position is put among those that take a function that returns
a Result or among those that take a function that returns nothing, and in the end the first are
taken away from the second.  A position is recorded many times, in any order, and what comes later
may take away what came before.

* `Signature.Offers`, `mem_signatureOffers_iff`: what a signature offers.
* `Recorded.Adds`: what a part of the loop puts into the two sets.
* `Adds.record`, `Adds.foldl`: what one offer puts there, and what a loop does.
* `mem_recordedVoids_iff`: **what is left in the end**, by what is offered.
-/

namespace ResultLint

/-! ## Offers -/

/-- What a signature offers for the argument at a position, in a call with `count` arguments: the
type of the parameter there, or what a rest parameter has for it.  Rest parameters offer nothing
past the arguments. -/
inductive Signature.Offers (t : TypeTable) (count position : Nat) (s : Signature) : TypeId → Prop
  | fixed {p : Parameter} (hp : s.params[position]? = some p) (hrest : p.rest = false) :
      Offers t count position s p.type
  | array {p : Parameter} {index : Nat} {E : TypeId} (hp : s.params[index]? = some p)
      (hrest : p.rest = true) (hindex : index ≤ position) (hposition : position < count)
      (hty : t.resolve (t.apparentType p.type) = .array E) : Offers t count position s E
  | tuple {p : Parameter} {index : Nat} {elements : List TypeId} {E : TypeId}
      (hp : s.params[index]? = some p) (hrest : p.rest = true) (hindex : index ≤ position)
      (hposition : position < count) (hty : t.resolve (t.apparentType p.type) = .tuple elements)
      (hE : elements[position - index]? = some E) : Offers t count position s E

namespace TypeTable

variable {t : TypeTable}

theorem restType?_eq_some_iff {id E : TypeId} {i : Nat} :
    t.restType? id i = some E ↔ t.resolve (t.apparentType id) = .array E ∨
      ∃ elements, t.resolve (t.apparentType id) = .tuple elements ∧ elements[i]? = some E := by
  rw [restType?]
  cases t.resolve (t.apparentType id) <;> simp

theorem parameterOffer?_eq_some_iff {count position index : Nat} {p : Parameter} {E : TypeId} :
    t.parameterOffer? count position index p = some E ↔
      (p.rest = false ∧ position = index ∧ p.type = E) ∨
      (p.rest = true ∧ index ≤ position ∧ position < count ∧
        t.restType? p.type (position - index) = some E) := by
  rw [parameterOffer?]
  cases p.rest <;> simp [and_assoc]

theorem mem_signatureOffers_iff {count position : Nat} {s : Signature} {E : TypeId} :
    E ∈ t.signatureOffers count position s ↔ s.Offers t count position E := by
  have hmem : E ∈ t.signatureOffers count position s ↔ ∃ p index, s.params[index]? = some p ∧
      t.parameterOffer? count position index p = some E := by
    rw [signatureOffers, List.mem_filterMap, Prod.exists]
    simp only [List.mem_zipIdx_iff_getElem?]
  rw [hmem]
  constructor
  · rintro ⟨p, index, hp, hoffer⟩
    rcases parameterOffer?_eq_some_iff.1 hoffer with ⟨hrest, rfl, rfl⟩ |
      ⟨hrest, hindex, hposition, htype⟩
    · exact .fixed hp hrest
    · rcases restType?_eq_some_iff.1 htype with hty | ⟨elements, hty, hE⟩
      · exact .array hp hrest hindex hposition hty
      · exact .tuple hp hrest hindex hposition hty hE
  · intro hoffer
    cases hoffer with
    | fixed hp hrest =>
      exact ⟨_, _, hp, parameterOffer?_eq_some_iff.2 (Or.inl ⟨hrest, rfl, rfl⟩)⟩
    | array hp hrest hindex hposition hty =>
      refine ⟨_, _, hp, parameterOffer?_eq_some_iff.2 (Or.inr ⟨hrest, hindex, hposition, ?_⟩)⟩
      exact restType?_eq_some_iff.2 (Or.inl hty)
    | tuple hp hrest hindex hposition hty hE =>
      refine ⟨_, _, hp, parameterOffer?_eq_some_iff.2 (Or.inr ⟨hrest, hindex, hposition, ?_⟩)⟩
      exact restType?_eq_some_iff.2 (Or.inr ⟨_, hty, hE⟩)

end TypeTable

/-- Within the arguments it does not matter how many there are. -/
theorem Signature.Offers.of_lt {t : TypeTable} {count count' position : Nat} {s : Signature}
    {E : TypeId} (hposition : position < count') (h : s.Offers t count position E) :
    s.Offers t count' position E := by
  cases h with
  | fixed hp hrest => exact .fixed hp hrest
  | array hp hrest hindex _ hty => exact .array hp hrest hindex hposition hty
  | tuple hp hrest hindex _ hty hE => exact .tuple hp hrest hindex hposition hty hE

namespace Classifier

/-- What some signature of a callee offers for the argument at a position. -/
def Offered (c : Classifier) (callee : TypeId) (kind : CallKind) (count position : Nat)
    (E : TypeId) : Prop :=
  ∃ m ∈ c.types.apparentMembers callee, ∃ s ∈ c.types.signatures kind m,
    s.Offers c.types count position E

variable {c : Classifier} {callee : TypeId} {kind : CallKind} {count position : Nat}

theorem exists_offered_iff {P : TypeId → Prop} :
    (∃ E, c.Offered callee kind count position E ∧ P E) ↔
      ∃ m ∈ c.types.apparentMembers callee, ∃ s ∈ c.types.signatures kind m,
        ∃ E, s.Offers c.types count position E ∧ P E := by
  constructor
  · rintro ⟨E, ⟨m, hm, s, hs, hE⟩, hP⟩
    exact ⟨m, hm, s, hs, E, hE, hP⟩
  · rintro ⟨m, hm, s, hs, E, hE, hP⟩
    exact ⟨E, ⟨m, hm, s, hs, hE⟩, hP⟩

/-- **An argument should return nothing if some offer does and no offer returns a Result.** -/
theorem mem_voidArguments_iff_offers :
    position ∈ c.voidArguments callee kind (some count) ↔
      (∃ m ∈ c.types.apparentMembers callee, ∃ s ∈ c.types.signatures kind m,
        ∃ E, s.Offers c.types count position E ∧ c.isVoidReturning E = true) ∧
      ¬ ∃ m ∈ c.types.apparentMembers callee, ∃ s ∈ c.types.signatures kind m,
        ∃ E, s.Offers c.types count position E ∧ c.isResultReturning E = true := by
  have hoffers : ∀ E, E ∈ c.offers callee kind count position ↔
      c.Offered callee kind count position E := by
    intro E
    simp only [mem_offers_iff, TypeTable.mem_signatureOffers_iff, Offered]
  rw [mem_voidArguments_iff, expectsVoid_iff, ← exists_offered_iff, ← exists_offered_iff]
  simp only [hoffers]

end Classifier

/-! ## Recording -/

/-- The positions that were seen to take functions that return Results, and those that were seen to
take functions that return nothing. -/
structure Recorded where
  results : Std.HashSet Nat := ∅
  voids : Std.HashSet Nat := ∅

namespace Recorded

variable (c : Classifier)

/-- Records that a type is offered for a position.  A function that sometimes returns a Result
counts as one that does. -/
def record (seen : Recorded) (type : TypeId) (position : Nat) : Recorded :=
  if c.isResultReturning type then { seen with results := seen.results.insert position }
  else if c.isVoidReturning type then { seen with voids := seen.voids.insert position }
  else seen

/-- Records what the parameter at an index offers, in a call with `count` arguments. -/
def recordParameter (count : Nat) (seen : Recorded) (p : Parameter) (index : Nat) : Recorded :=
  if p.rest then
    let rest := c.types.apparentType p.type
    let positions := List.range' index (count - index)
    if c.types.isArray rest then
      let element := (c.types.elementTypes rest).head?.getD .unknown
      positions.foldl (fun seen position => seen.record c element position) seen
    else if c.types.isTuple rest then
      (positions.zip (c.types.elementTypes rest)).foldl (fun seen x => seen.record c x.2 x.1) seen
    else seen
  else seen.record c p.type index

def recordSignature (count : Nat) (seen : Recorded) (s : Signature) : Recorded :=
  s.params.zipIdx.foldl (fun seen x => seen.recordParameter c count x.1 x.2) seen

def recordMember (kind : CallKind) (count : Nat) (seen : Recorded) (m : TypeId) : Recorded :=
  (c.types.signatures kind m).foldl (recordSignature c count) seen

def recordCallee (kind : CallKind) (count : Nat) (seen : Recorded) (callee : TypeId) : Recorded :=
  (c.types.apparentMembers callee).foldl (recordMember c kind count) seen

/-- The positions that take functions that return nothing and none that return Results. -/
def voidOnly (seen : Recorded) : Std.HashSet Nat :=
  seen.voids.filter fun position => !seen.results.contains position

end Recorded

/-- The positions of arguments for which only functions that return nothing are expected, by
recording what is offered.  There are none if the call has no list of arguments. -/
def Classifier.recordedVoids (c : Classifier) (callee : TypeId) (kind : CallKind) :
    Option Nat → Std.HashSet Nat
  | none => ∅
  | some count => (Recorded.recordCallee c kind count {} callee).voidOnly

/-! ## What is recorded -/

namespace Recorded

/-- What is offered for a position is put there, from `seen` to `after`, and nothing else. -/
structure Adds (c : Classifier) (offered : Nat → TypeId → Prop) (seen after : Recorded) :
    Prop where
  results : ∀ position, position ∈ after.results ↔ position ∈ seen.results ∨
    ∃ E, offered position E ∧ c.isResultReturning E = true
  voids : ∀ position, position ∈ after.voids ↔ position ∈ seen.voids ∨
    ∃ E, offered position E ∧ c.isVoidReturning E = true

namespace Adds

variable {c : Classifier} {offered offered' : Nat → TypeId → Prop} {seen after : Recorded}

theorem congr (h : Adds c offered seen after)
    (heq : ∀ position E, offered position E ↔ offered' position E) :
    Adds c offered' seen after := by
  obtain rfl : offered = offered' := funext₂ fun position E => propext (heq position E)
  exact h

theorem nothing (hnone : ∀ position E, ¬ offered position E) : Adds c offered seen seen := by
  refine ⟨fun position => ?_, fun position => ?_⟩
  · simp [hnone]
  · simp [hnone]

/-- **One offer is put into one of the sets, or into none.**  A function that returns nothing
returns no Result, so that none of those is lost. -/
theorem record (seen : Recorded) (type : TypeId) (position : Nat) :
    Adds c (fun p E => p = position ∧ E = type) seen (seen.record c type position) := by
  have hinsert : ∀ (set : Std.HashSet Nat) (p : Nat),
      p ∈ set.insert position ↔ p ∈ set ∨ p = position := by
    intro set p
    rw [Std.HashSet.mem_insert, beq_iff_eq, or_comm, eq_comm]
  have hone : ∀ (p : Nat) (P : TypeId → Prop),
      (∃ E, (p = position ∧ E = type) ∧ P E) ↔ p = position ∧ P type := by
    intro p P
    simp only [and_assoc, exists_and_left, exists_eq_left]
  rw [Recorded.record]
  by_cases hresult : c.isResultReturning type = true
  · have hvoid : ¬ c.isVoidReturning type = true := by
      intro hv
      rw [(Classifier.isVoidReturning_iff.1 hv).2] at hresult
      cases hresult
    rw [if_pos hresult]
    refine ⟨fun p => ?_, fun p => ?_⟩
    · rw [hone, hinsert, and_iff_left hresult]
    · rw [hone, or_iff_left fun h => hvoid h.2]
  · rw [if_neg hresult]
    by_cases hvoid : c.isVoidReturning type = true
    · rw [if_pos hvoid]
      refine ⟨fun p => ?_, fun p => ?_⟩
      · rw [hone, or_iff_left fun h => hresult h.2]
      · rw [hone, hinsert, and_iff_left hvoid]
    · rw [if_neg hvoid]
      refine ⟨fun p => ?_, fun p => ?_⟩
      · rw [hone, or_iff_left fun h => hresult h.2]
      · rw [hone, or_iff_left fun h => hvoid h.2]

/-- **A loop puts in what its rounds put in.** -/
theorem foldl {α : Type} {step : Recorded → α → Recorded} {offered : α → Nat → TypeId → Prop}
    {l : List α} (h : ∀ x ∈ l, ∀ seen, Adds c (offered x) seen (step seen x)) (seen : Recorded) :
    Adds c (fun position E => ∃ x ∈ l, offered x position E) seen (l.foldl step seen) := by
  induction l generalizing seen with
  | nil => exact nothing (by simp)
  | cons x l ih =>
    have hfirst := h x List.mem_cons_self seen
    have hrest := ih (fun y hy => h y (List.mem_cons_of_mem x hy)) (step seen x)
    refine ⟨fun position => ?_, fun position => ?_⟩
    · rw [List.foldl_cons, hrest.results, hfirst.results, or_assoc]
      refine or_congr_right ?_
      simp only [List.exists_mem_cons_iff, or_and_right, exists_or]
    · rw [List.foldl_cons, hrest.voids, hfirst.voids, or_assoc]
      refine or_congr_right ?_
      simp only [List.exists_mem_cons_iff, or_and_right, exists_or]

end Adds

variable {c : Classifier} (seen : Recorded)

/-- The positions of a call from an index on. -/
theorem mem_positions {index count position : Nat} :
    position ∈ List.range' index (count - index) ↔ index ≤ position ∧ position < count := by
  rw [List.mem_range'_1]
  omega

/-- Each position of a call goes with the element as far from the first as it is from the index, as
long as there are elements. -/
theorem mem_zip_positions {α : Type} {index count position : Nat} {l : List α} {x : α} :
    (position, x) ∈ (List.range' index (count - index)).zip l ↔
      (index ≤ position ∧ position < count) ∧ l[position - index]? = some x := by
  rw [List.mem_iff_getElem?]
  simp only [List.getElem?_zip_eq_some]
  constructor
  · rintro ⟨i, hposition, hx⟩
    obtain ⟨hi, hposition⟩ := List.getElem?_eq_some_iff.1 hposition
    rw [List.length_range'] at hi
    rw [List.getElem_range'_1] at hposition
    subst hposition
    rw [Nat.add_sub_cancel_left]
    exact ⟨by omega, hx⟩
  · rintro ⟨hposition, hx⟩
    refine ⟨position - index, ?_, hx⟩
    rw [List.getElem?_range' (by omega)]
    exact congrArg some (by omega)

/-- A rest parameter offers what its array or tuple holds, for the arguments from there on. -/
theorem adds_rest (count : Nat) {p : Parameter} (hrest : p.rest = true) (index : Nat) :
    Adds c (fun position E => (index ≤ position ∧ position < count) ∧
        c.types.restType? p.type (position - index) = some E)
      seen (seen.recordParameter c count p index) := by
  rw [recordParameter, if_pos hrest]
  cases hty : c.types.resolve (c.types.apparentType p.type) with
  | array element =>
    simp only [TypeTable.isArray, TypeTable.elementTypes, TypeTable.restType?, hty]
    refine (Adds.foldl (fun x _ seen => Adds.record seen element x) seen).congr ?_
    intro position E
    rw [Option.some.injEq, eq_comm]
    constructor
    · rintro ⟨x, hx, rfl, rfl⟩
      exact ⟨mem_positions.1 hx, rfl⟩
    · rintro ⟨hposition, rfl⟩
      exact ⟨position, mem_positions.2 hposition, rfl, rfl⟩
  | tuple elements =>
    simp only [TypeTable.isArray, TypeTable.isTuple, TypeTable.elementTypes, TypeTable.restType?,
      hty]
    refine (Adds.foldl (fun x _ seen => Adds.record seen x.2 x.1) seen).congr ?_
    intro position E
    constructor
    · rintro ⟨x, hx, rfl, rfl⟩
      exact mem_zip_positions.1 hx
    · intro h
      exact ⟨(position, E), mem_zip_positions.2 h, rfl, rfl⟩
  | _ =>
    simp only [TypeTable.isArray, TypeTable.isTuple, TypeTable.restType?, hty]
    refine Adds.nothing fun position E h => ?_
    cases h.2

theorem adds_parameter (count : Nat) (p : Parameter) (index : Nat) :
    Adds c (fun position E => c.types.parameterOffer? count position index p = some E) seen
      (seen.recordParameter c count p index) := by
  cases hrest : p.rest with
  | true =>
    refine (adds_rest seen count hrest index).congr fun position E => ?_
    rw [TypeTable.parameterOffer?_eq_some_iff]
    simp [hrest, and_assoc]
  | false =>
    rw [recordParameter, hrest, if_neg Bool.false_ne_true]
    refine (Adds.record seen p.type index).congr fun position E => ?_
    rw [TypeTable.parameterOffer?_eq_some_iff]
    simp [hrest, eq_comm]

theorem adds_signature (count : Nat) (s : Signature) :
    Adds c (fun position E => s.Offers c.types count position E) seen
      (seen.recordSignature c count s) := by
  refine (Adds.foldl (fun x _ seen => adds_parameter seen count x.1 x.2) seen).congr ?_
  intro position E
  rw [← TypeTable.mem_signatureOffers_iff, TypeTable.signatureOffers, List.mem_filterMap]

theorem adds_member (kind : CallKind) (count : Nat) (m : TypeId) :
    Adds c (fun position E => ∃ s ∈ c.types.signatures kind m, s.Offers c.types count position E)
      seen (seen.recordMember c kind count m) :=
  Adds.foldl (fun s _ seen => adds_signature seen count s) seen

theorem adds_callee (kind : CallKind) (count : Nat) (callee : TypeId) :
    Adds c (c.Offered callee kind count) seen (seen.recordCallee c kind count callee) :=
  Adds.foldl (fun m _ seen => adds_member seen kind count m) seen

theorem mem_voidOnly {position : Nat} :
    position ∈ seen.voidOnly ↔ position ∈ seen.voids ∧ position ∉ seen.results := by
  simp [voidOnly]

end Recorded

/-- **What is left in the end**: the positions for which a function that returns nothing is offered,
and by no signature a function that returns a Result. -/
theorem Classifier.mem_recordedVoids_iff {c : Classifier} {callee : TypeId} {kind : CallKind}
    {count position : Nat} :
    position ∈ c.recordedVoids callee kind (some count) ↔
      (∃ m ∈ c.types.apparentMembers callee, ∃ s ∈ c.types.signatures kind m,
        ∃ E, s.Offers c.types count position E ∧ c.isVoidReturning E = true) ∧
      ¬ ∃ m ∈ c.types.apparentMembers callee, ∃ s ∈ c.types.signatures kind m,
        ∃ E, s.Offers c.types count position E ∧ c.isResultReturning E = true := by
  have hadds := Recorded.adds_callee (c := c) {} kind count callee
  rw [recordedVoids, Recorded.mem_voidOnly, hadds.voids, hadds.results, exists_offered_iff,
    exists_offered_iff]
  simp only [Std.HashSet.not_mem_empty, false_or]

end ResultLint
