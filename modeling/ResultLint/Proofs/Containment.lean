import ResultLint.Proofs.ResultTypes

/-!
# Numbers that stay in the table

In a well-formed table every question about types leads from numbers of the table to numbers of the
table: what a type amounts to, its properties and elements, and the parameters and results of its
signatures.  The walks need no start in the table for this, since a walk that leaves it ends at
`unknown`.  In a valid program the types of nodes are such numbers to begin with.
-/

namespace ResultLint

namespace TypeTable

open Relation (ReflTransGen)

variable {t : TypeTable}

theorem mem_signatures_iff {kind : CallKind} {id : TypeId} {s : Signature} :
    s ∈ t.signatures kind id ↔ ∃ o, t.get? id = some (.object o) ∧
      (kind = .call ∧ s ∈ o.callSignatures ∨ kind = .construct ∧ s ∈ o.constructSignatures) := by
  simp only [← object?_eq_some_iff]
  cases kind with
  | call => cases h : t.object? id <;> simp [signatures, callSignatures, h]
  | construct => cases h : t.object? id <;> simp [signatures, constructSignatures, h]

theorem mem_elementTypes_iff {id r : TypeId} :
    r ∈ t.elementTypes id ↔ t.get? id = some (.array r) ∨
      ∃ elements, t.get? id = some (.tuple elements) ∧ r ∈ elements := by
  rw [elementTypes, resolve]
  cases h : t.get? id with
  | none => simp
  | some ty => cases ty <;> simp [eq_comm]

/-! ## What questions lead to -/

theorem mentions_of_property? {id r : TypeId} {name : String}
    (h : t.property? id name = some r) : (t.resolve id).Mentions r := by
  obtain ⟨o, ho, p, ⟨before, after, he, _⟩, rfl⟩ := property?_eq_some_iff.1 h
  rw [resolve_of_get? ho]
  exact .property (by rw [he]; simp)

theorem mentions_of_mem_elementTypes {id r : TypeId} (h : r ∈ t.elementTypes id) :
    (t.resolve id).Mentions r := by
  rcases mem_elementTypes_iff.1 h with ha | ⟨elements, ht, hmem⟩
  · rw [resolve_of_get? ha]
    exact .arrayElement r
  · rw [resolve_of_get? ht]
    exact .tupleElement hmem

section

variable {kind : CallKind} {id : TypeId} {s : Signature} (hs : s ∈ t.signatures kind id)

include hs

theorem mentions_parameter {p : Parameter} (hp : p ∈ s.params) :
    (t.resolve id).Mentions p.type := by
  obtain ⟨o, ho, ⟨_, hc⟩ | ⟨_, hc⟩⟩ := mem_signatures_iff.1 hs
  · rw [resolve_of_get? ho]
    exact .callParameter hc hp
  · rw [resolve_of_get? ho]
    exact .constructParameter hc hp

theorem mentions_returnType : (t.resolve id).Mentions s.returnType := by
  obtain ⟨o, ho, ⟨_, hc⟩ | ⟨_, hc⟩⟩ := mem_signatures_iff.1 hs
  · rw [resolve_of_get? ho]
    exact .callReturn hc
  · rw [resolve_of_get? ho]
    exact .constructReturn hc

end

theorem mentions_of_restType? {id r : TypeId} {i : Nat} (h : t.restType? id i = some r) :
    (t.resolve (t.apparentType id)).Mentions r := by
  rw [restType?] at h
  split at h
  next hty =>
    cases h
    rw [hty]
    exact .arrayElement r
  next hty =>
    rw [hty]
    exact .tupleElement (List.mem_of_getElem? h)
  next => cases h

/-- A signature offers the types of its parameters and what their apparent types mention. -/
theorem exists_of_mem_signatureOffers {r : TypeId} {s : Signature} {count position : Nat}
    (h : r ∈ t.signatureOffers count position s) :
    ∃ p ∈ s.params, r = p.type ∨ (t.resolve (t.apparentType p.type)).Mentions r := by
  obtain ⟨⟨p, index⟩, hmem, hoffer⟩ := List.mem_filterMap.1 h
  refine ⟨p, (List.mem_zipIdx' hmem).2 ▸ List.getElem_mem _, ?_⟩
  simp only [parameterOffer?] at hoffer
  split at hoffer
  · split at hoffer
    · exact Or.inr (mentions_of_restType? hoffer)
    · cases hoffer
  · split at hoffer
    · cases hoffer
      exact Or.inl rfl
    · cases hoffer

namespace WellFormed

theorem contains_unknown (h : t.WellFormed) : t.contains .unknown = true :=
  contains_iff.2 ⟨_, h.primitive .unknown⟩

theorem contains_apparentType (h : t.WellFormed) (id : TypeId) :
    t.contains (t.apparentType id) = true :=
  TypeTable.contains_apparentType (h.primitive .unknown) id

theorem contains_of_mem_unionMembers (h : t.WellFormed) {a m : TypeId}
    (ha : t.contains a = true) (hm : m ∈ t.unionMembers a) : t.contains m = true := by
  have hpath := (mem_unionMembers_iff.1 hm).2
  exact h.contains_of_reaches ha (ReflTransGen.mono (fun _ _ => Or.inl) _ _ hpath)

theorem contains_of_mem_apparentMembers (h : t.WellFormed) {a m : TypeId}
    (hm : m ∈ t.apparentMembers a) : t.contains m = true := by
  obtain ⟨_, w, hw, hp⟩ := mem_apparentMembers_iff.1 hm
  rcases hp.cases_tail with rfl | ⟨b, _, hb⟩
  · exact h.contains_of_mem_unionMembers (h.contains_apparentType a) hw
  · exact h.contains_of_mem_unionMembers (h.contains_apparentType b) hb.2

/-- What is mentioned is in the table, also by what an unknown number stands for. -/
theorem contains_of_mentions (h : t.WellFormed) {id r : TypeId}
    (hr : (t.resolve id).Mentions r) : t.contains r = true := by
  cases hty : t.get? id with
  | some ty =>
    rw [resolve_of_get? hty] at hr
    exact h.mentioned hty hr
  | none =>
    rw [resolve, hty] at hr
    cases hr

theorem contains_property? (h : t.WellFormed) {id r : TypeId} {name : String}
    (hp : t.property? id name = some r) : t.contains r = true :=
  h.contains_of_mentions (mentions_of_property? hp)

theorem contains_elementTypes (h : t.WellFormed) {id r : TypeId} (hr : r ∈ t.elementTypes id) :
    t.contains r = true :=
  h.contains_of_mentions (mentions_of_mem_elementTypes hr)

theorem contains_parameter (h : t.WellFormed) {kind : CallKind} {id : TypeId} {s : Signature}
    (hs : s ∈ t.signatures kind id) {p : Parameter} (hp : p ∈ s.params) :
    t.contains p.type = true :=
  h.contains_of_mentions (mentions_parameter hs hp)

theorem contains_returnType (h : t.WellFormed) {kind : CallKind} {id : TypeId} {s : Signature}
    (hs : s ∈ t.signatures kind id) : t.contains s.returnType = true :=
  h.contains_of_mentions (mentions_returnType hs)

theorem contains_signatureOffers (h : t.WellFormed) {kind : CallKind} {id r : TypeId}
    {s : Signature} (hs : s ∈ t.signatures kind id) {count position : Nat}
    (hr : r ∈ t.signatureOffers count position s) : t.contains r = true := by
  obtain ⟨p, hp, rfl | hmentions⟩ := exists_of_mem_signatureOffers hr
  · exact h.contains_parameter hs hp
  · exact h.contains_of_mentions hmentions

end WellFormed

end TypeTable

namespace Program.Valid

variable {p : Program}

theorem contains_typeAt (h : p.Valid) (id : NodeId) : p.types.contains (p.typeAt id) = true := by
  rw [typeAt]
  cases hn : p.tree.get? id with
  | none => exact h.types.contains_unknown
  | some node =>
    rw [Option.bind_some]
    cases ht : node.type with
    | none => exact h.types.contains_unknown
    | some r => exact h.type hn ht

theorem contains_contextualType? (h : p.Valid) {id : NodeId} {r : TypeId}
    (hr : p.contextualType? id = some r) : p.types.contains r = true := by
  obtain ⟨node, hn, hc⟩ := Option.bind_eq_some_iff.1 hr
  exact h.contextualType hn hc

end Program.Valid

end ResultLint
