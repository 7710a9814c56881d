import ResultLint.Proofs.Alike.Types

/-!
# Classifiers that judge alike

What a classifier says of a type depends on the apparent members, whatever their order, and on their
properties, elements and signatures, whatever they are called.  A classifier **mirrors** another if
its table has entries like those of the other, be it under other numbers.

* `mem_voidArguments_iff`: which arguments should return nothing, by what signatures offer for them.
* `Mirrors.isSometimesResult_eq` and the like: **mirrored types get the same verdicts.**
* `Alike.mirrors`, `Mirrors.of_translates`: classifiers over tables that are alike mirror each
  other, and so do classifiers over a table and its translation.
-/

namespace ResultLint

/-! ## Arguments -/

theorem le_foldl_max {l : List Nat} {x start : Nat} (h : x ≤ start ∨ ∃ y ∈ l, x ≤ y) :
    x ≤ l.foldl max start := by
  induction l generalizing start with
  | nil =>
    rcases h with h | ⟨y, hy, _⟩
    · exact h
    · simp at hy
  | cons z l ih =>
    apply ih
    rcases h with h | ⟨y, hy, hxy⟩
    · exact Or.inl (by omega)
    · rcases List.mem_cons.1 hy with rfl | hy
      · exact Or.inl (by omega)
      · exact Or.inr ⟨y, hy, hxy⟩

namespace Classifier

/-- The types that the signatures of a callee offer for the argument at a position. -/
def offers (c : Classifier) (callee : TypeId) (kind : CallKind) (count position : Nat) :
    List TypeId :=
  (c.types.apparentSignatures kind callee).flatMap (c.types.signatureOffers count position)

variable {c : Classifier}

theorem mem_offers_iff {callee E : TypeId} {kind : CallKind} {count position : Nat} :
    E ∈ c.offers callee kind count position ↔ ∃ m ∈ c.types.apparentMembers callee,
      ∃ s ∈ c.types.signatures kind m, E ∈ c.types.signatureOffers count position s := by
  simp only [offers, TypeTable.apparentSignatures, List.mem_flatMap]
  constructor
  · rintro ⟨s, ⟨m, hm, hs⟩, hE⟩
    exact ⟨m, hm, s, hs, hE⟩
  · rintro ⟨m, hm, s, hs, hE⟩
    exact ⟨s, ⟨m, hm, hs⟩, hE⟩

theorem expectsVoid_iff {types : List TypeId} :
    c.expectsVoid types = true ↔ (∃ E ∈ types, c.isVoidReturning E = true) ∧
      ¬ ∃ E ∈ types, c.isResultReturning E = true := by
  simp [expectsVoid]

/-- A parameter that offers a function that returns nothing reaches the position. -/
theorem lt_parameterReach {count position index : Nat} {p : Parameter} {E : TypeId}
    (hE : c.types.parameterOffer? count position index p = some E)
    (hv : c.isVoidReturning E = true) : position < c.parameterReach count index p := by
  rw [TypeTable.parameterOffer?] at hE
  rw [parameterReach]
  split at hE
  next hrest =>
    rw [if_pos hrest]
    split at hE
    next hbounds =>
      rw [TypeTable.restType?] at hE
      split at hE
      next element hty =>
        cases hE
        rw [if_pos hv]
        exact hbounds.2
      next elements hty =>
        have hlt := (List.getElem?_eq_some_iff.1 hE).1
        omega
      next => cases hE
    next => cases hE
  next hrest =>
    rw [if_neg hrest]
    split at hE
    · omega
    · cases hE

/-- **An argument should return nothing if what is offered for it expects so.**  Positions are
searched only as far as some offer reaches, which leaves none out. -/
theorem mem_voidArguments_iff {callee : TypeId} {kind : CallKind} {count position : Nat} :
    position ∈ c.voidArguments callee kind (some count) ↔
      c.expectsVoid (c.offers callee kind count position) = true := by
  rw [voidArguments, List.mem_filter, List.mem_range]
  refine and_iff_right_of_imp fun hexpects => ?_
  obtain ⟨⟨E, hE, hv⟩, _⟩ := expectsVoid_iff.1 hexpects
  obtain ⟨s, hs, hE⟩ := List.mem_flatMap.1 hE
  obtain ⟨x, hx, hoffer⟩ := List.mem_filterMap.1 hE
  -- the position is within reach of the parameter, so of its signature, so of all signatures
  have hparameter : position < c.parameterReach count x.2 x.1 := lt_parameterReach hoffer hv
  have hsignature : position < c.signatureReach count s :=
    le_foldl_max (Or.inr ⟨_, List.mem_map.2 ⟨x, hx, rfl⟩, hparameter⟩)
  exact le_foldl_max (Or.inr ⟨_, List.mem_map.2 ⟨s, hs, rfl⟩, hsignature⟩)

/-- Which arguments should return nothing depends only on the apparent members of the callee. -/
theorem mem_voidArguments_congr {a b : TypeId}
    (h : ∀ m, m ∈ c.types.apparentMembers a ↔ m ∈ c.types.apparentMembers b) {kind : CallKind}
    {count : Option Nat} {position : Nat} :
    position ∈ c.voidArguments a kind count ↔ position ∈ c.voidArguments b kind count := by
  cases count with
  | none => exact Iff.rfl
  | some count =>
    simp only [mem_voidArguments_iff, expectsVoid_iff, mem_offers_iff, h]

end Classifier

/-! ## Entries -/

theorem exists_mem_iff_of_forall₂ {α β : Type} {R : α → β → Prop} {l : List α} {l' : List β}
    (h : List.Forall₂ R l l') {P : α → Prop} {Q : β → Prop}
    (hPQ : ∀ a ∈ l, ∀ b, R a b → (Q b ↔ P a)) : (∃ b ∈ l', Q b) ↔ ∃ a ∈ l, P a := by
  induction h with
  | nil => simp
  | @cons a b l l' hab _ ih =>
    rw [List.exists_mem_cons_iff, List.exists_mem_cons_iff, hPQ a List.mem_cons_self b hab,
      ih fun x hx => hPQ x (List.mem_cons_of_mem a hx)]

namespace TypeTable

/-- Of the parameters, only types and positions matter for what is offered. -/
theorem signatureOffers_eq_filterMap (t : TypeTable) (count position : Nat) (s : Signature) :
    t.signatureOffers count position s =
      (s.params.map fun p => (p.type, p.rest)).zipIdx.filterMap fun x =>
        t.parameterOffer? count position x.2 ⟨"", x.1.1, x.1.2⟩ := by
  rw [List.zipIdx_map, List.filterMap_map]
  rfl

/-- The entries are alike once the first has the numbers of the second. -/
def AlikeAt (f : TypeId → TypeId) (same : List TypeId → List TypeId → Prop) (t u : TypeTable)
    (a b : TypeId) : Prop :=
  ((t.resolve a).map f).Alike same (u.resolve b)

namespace AlikeAt

variable {f : TypeId → TypeId} {same : List TypeId → List TypeId → Prop} {t u : TypeTable}
  {a b : TypeId} (h : AlikeAt f same t u a b)

include h

theorem exists_resolve :
    ∃ ty ty', t.resolve a = ty ∧ u.resolve b = ty' ∧ (ty.map f).Alike same ty' :=
  ⟨_, _, rfl, rfl, h⟩

theorem property?_eq (name : String) : u.property? b name = (t.property? a name).map f := by
  obtain ⟨ty, ty', hty, hty', halike⟩ := h.exists_resolve
  rw [property?, property?, object?, object?, hty, hty']
  cases ty with
  | object o =>
    cases halike with
    | object hp hc hk =>
      rw [Option.bind_some, Option.bind_some, ← o.property?_map, ObjectType.property?,
        ObjectType.property?, hp]
  | _ => cases halike; rfl

theorem stringLiteral?_eq : u.stringLiteral? b = t.stringLiteral? a := by
  obtain ⟨ty, ty', hty, hty', halike⟩ := h.exists_resolve
  rw [stringLiteral?, stringLiteral?, hty, hty']
  cases ty <;> cases halike <;> rfl

theorem isVoid_eq : u.isVoid b = t.isVoid a := by
  obtain ⟨ty, ty', hty, hty', halike⟩ := h.exists_resolve
  rw [isVoid, isVoid, hty, hty']
  cases ty <;> cases halike <;> simp

theorem elementTypes_eq : u.elementTypes b = (t.elementTypes a).map f := by
  obtain ⟨ty, ty', hty, hty', halike⟩ := h.exists_resolve
  rw [elementTypes, elementTypes, hty, hty']
  cases ty <;> cases halike <;> rfl

theorem isArray_eq : u.isArray b = t.isArray a := by
  obtain ⟨ty, ty', hty, hty', halike⟩ := h.exists_resolve
  rw [isArray, isArray, hty, hty']
  cases ty <;> cases halike <;> rfl

theorem isTuple_eq : u.isTuple b = t.isTuple a := by
  obtain ⟨ty, ty', hty, hty', halike⟩ := h.exists_resolve
  rw [isTuple, isTuple, hty, hty']
  cases ty <;> cases halike <;> rfl

theorem signatures_alike (kind : CallKind) :
    List.Forall₂ (fun s s' => (s.map f).Alike s') (t.signatures kind a) (u.signatures kind b) := by
  obtain ⟨ty, ty', hty, hty', halike⟩ := h.exists_resolve
  rw [← List.forall₂_map_left_iff]
  cases kind with
  | call =>
    rw [signatures, signatures, callSignatures, callSignatures, object?, object?, hty, hty']
    cases ty with
    | object o =>
      cases halike with
      | object hp hc hk => exact hc
    | _ => cases halike; exact .nil
  | construct =>
    rw [signatures, signatures, constructSignatures, constructSignatures, object?, object?, hty,
      hty']
    cases ty with
    | object o =>
      cases halike with
      | object hp hc hk => exact hk
    | _ => cases halike; exact .nil

end AlikeAt

variable {t u : TypeTable}

theorem Alike.alikeAt {same : List TypeId → List TypeId → Prop} (h : t.Alike same u) {a : TypeId}
    (ha : t.contains a = true) : AlikeAt id same t u a a := by
  obtain ⟨ty, hty⟩ := contains_iff.1 ha
  obtain ⟨ty', hty', halike⟩ := h.entry hty
  rwa [AlikeAt, resolve_of_get? hty, resolve_of_get? hty', Ty.map_id]

theorem Alike.property?_eq {same : List TypeId → List TypeId → Prop} (h : t.Alike same u)
    {a : TypeId} (ha : t.contains a = true) (name : String) :
    u.property? a name = t.property? a name := by
  rw [(h.alikeAt ha).property?_eq, Option.map_id, id]

theorem Alike.stringLiteral?_eq {same : List TypeId → List TypeId → Prop} (h : t.Alike same u)
    {a : TypeId} (ha : t.contains a = true) : u.stringLiteral? a = t.stringLiteral? a :=
  (h.alikeAt ha).stringLiteral?_eq

theorem Translates.alikeAt {f : TypeId → TypeId} {same : List TypeId → List TypeId → Prop}
    (hsame : ∀ l, same l l) (h : t.Translates f u) {a : TypeId} (ha : t.Known f a) :
    AlikeAt f same t u a (f a) := by
  rw [AlikeAt, h.resolve_eq ha]
  exact .refl hsame _

end TypeTable

/-! ## Verdicts -/

namespace Classifier

/-- The types that can be met have entries like theirs under other numbers, with the same steps from
one to the next.  Questions about types lead only to types that can be met. -/
structure Mirrors (f : TypeId → TypeId) (Met : TypeId → Prop) (c d : Classifier) : Prop where
  shape : d.shape = c.shape
  entry : ∀ {id : TypeId}, Met id → TypeTable.AlikeAt f SameMembers c.types d.types id (f id)
  mentioned : ∀ {id r : TypeId}, (c.types.resolve id).Mentions r → Met r
  apparentType_eq : ∀ {id : TypeId}, Met id →
    d.types.apparentType (f id) = f (c.types.apparentType id)
  apparentType : ∀ id : TypeId, Met (c.types.apparentType id)
  mem_apparentMembers_iff : ∀ {id m' : TypeId}, Met id →
    (m' ∈ d.types.apparentMembers (f id) ↔ ∃ m ∈ c.types.apparentMembers id, f m = m')
  apparentMember : ∀ {id m : TypeId}, m ∈ c.types.apparentMembers id → Met m

namespace Mirrors

variable {f : TypeId → TypeId} {Met : TypeId → Prop} {c d : Classifier} (h : c.Mirrors f Met d)
  {id : TypeId}

include h

/-- What some apparent member is in one table, some apparent member is in the other. -/
theorem exists_apparentMember_iff (hid : Met id) {P Q : TypeId → Prop}
    (hPQ : ∀ m, Met m → (Q (f m) ↔ P m)) :
    (∃ m ∈ d.types.apparentMembers (f id), Q m) ↔ ∃ m ∈ c.types.apparentMembers id, P m := by
  constructor
  · rintro ⟨m', hm', hq⟩
    obtain ⟨m, hm, rfl⟩ := (h.mem_apparentMembers_iff hid).1 hm'
    exact ⟨m, hm, (hPQ m (h.apparentMember hm)).1 hq⟩
  · rintro ⟨m, hm, hp⟩
    refine ⟨f m, (h.mem_apparentMembers_iff hid).2 ⟨m, hm, rfl⟩, ?_⟩
    exact (hPQ m (h.apparentMember hm)).2 hp

theorem mem_markers_iff (hid : Met id) {v : String} : v ∈ d.markers (f id) ↔ v ∈ c.markers id := by
  simp only [markers, List.mem_filter, List.mem_filterMap, h.shape]
  refine and_congr_left fun _ => h.exists_apparentMember_iff hid fun m hm => ?_
  rw [(h.entry hm).stringLiteral?_eq]

theorem isResultLike_eq (hid : Met id) : d.isResultLike (f id) = c.isResultLike id := by
  rw [isResultLike, isResultLike, h.shape, (h.entry hid).property?_eq]
  cases htag : c.types.property? id c.shape.discriminant with
  | none => rfl
  | some tag =>
    have htag' : Met tag := h.mentioned (TypeTable.mentions_of_property? htag)
    rw [Option.map_some, Bool.eq_iff_iff]
    simp only [List.any_eq_true, h.mem_markers_iff htag', (h.entry hid).property?_eq,
      Option.isSome_map]

theorem isSometimesResult_eq (hid : Met id) :
    d.isSometimesResult (f id) = c.isSometimesResult id := by
  rw [Bool.eq_iff_iff, isSometimesResult_iff, isSometimesResult_iff]
  exact h.exists_apparentMember_iff hid fun m hm => by rw [h.isResultLike_eq hm]

theorem isAlwaysResult_eq (hid : Met id) : d.isAlwaysResult (f id) = c.isAlwaysResult id := by
  have hsome : (∃ m, m ∈ d.types.apparentMembers (f id)) ↔
      ∃ m, m ∈ c.types.apparentMembers id := by
    simpa using h.exists_apparentMember_iff hid (P := fun _ => True) (Q := fun _ => True)
      fun _ _ => Iff.rfl
  have hother : (∃ m ∈ d.types.apparentMembers (f id), ¬ d.isResultLike m = true) ↔
      ∃ m ∈ c.types.apparentMembers id, ¬ c.isResultLike m = true :=
    h.exists_apparentMember_iff hid fun m hm => by rw [h.isResultLike_eq hm]
  rw [Bool.eq_iff_iff, isAlwaysResult_iff, isAlwaysResult_iff, hsome]
  refine and_congr_right fun _ => ?_
  rw [← not_iff_not]
  simpa using hother

theorem isResultArrayOrTuple_eq (hid : Met id) :
    d.isResultArrayOrTuple (f id) = c.isResultArrayOrTuple id := by
  rw [Bool.eq_iff_iff, isResultArrayOrTuple_iff, isResultArrayOrTuple_iff]
  refine h.exists_apparentMember_iff hid fun m hm => ?_
  simp only [(h.entry hm).elementTypes_eq, List.mem_map, exists_exists_and_eq_and]
  refine exists_congr fun e => and_congr_right fun he => ?_
  rw [h.isSometimesResult_eq (h.mentioned (TypeTable.mentions_of_mem_elementTypes he))]

/-- What some call signature is in one table, some call signature is in the other. -/
theorem exists_callSignature_iff (hid : Met id) {P Q : TypeId → Prop}
    (hPQ : ∀ r, Met r → (Q (f r) ↔ P r)) :
    (∃ m ∈ d.types.apparentMembers (f id), ∃ s ∈ d.types.callSignatures m, Q s.returnType) ↔
      ∃ m ∈ c.types.apparentMembers id, ∃ s ∈ c.types.callSignatures m, P s.returnType := by
  refine h.exists_apparentMember_iff hid fun m hm => ?_
  refine exists_mem_iff_of_forall₂ ((h.entry hm).signatures_alike .call) fun s hs s' halike => ?_
  have hs : s ∈ c.types.signatures .call m := hs
  rw [halike.returnType]
  exact hPQ _ (h.mentioned (TypeTable.mentions_returnType hs))

theorem isResultReturning_eq (hid : Met id) :
    d.isResultReturning (f id) = c.isResultReturning id := by
  rw [Bool.eq_iff_iff, isResultReturning_iff, isResultReturning_iff]
  refine h.exists_callSignature_iff hid (P := (c.isSometimesResult · = true))
    (Q := (d.isSometimesResult · = true)) fun r hr => ?_
  rw [h.isSometimesResult_eq hr]

theorem isVoidReturning_eq (hid : Met id) : d.isVoidReturning (f id) = c.isVoidReturning id := by
  rw [Bool.eq_iff_iff, isVoidReturning_iff, isVoidReturning_iff, h.isResultReturning_eq hid]
  refine and_congr_left fun _ => h.exists_callSignature_iff hid (P := (c.types.isVoid · = true))
    (Q := (d.types.isVoid · = true)) fun r hr => ?_
  rw [(h.entry hr).isVoid_eq]

/-! ### Arguments -/

theorem restType?_eq (hid : Met id) (i : Nat) :
    d.types.restType? (f id) i = (c.types.restType? id i).map f := by
  obtain ⟨ty, ty', hty, hty', halike⟩ := (h.entry (h.apparentType id)).exists_resolve
  rw [TypeTable.restType?, TypeTable.restType?, h.apparentType_eq hid, hty, hty']
  cases ty with
  | tuple elements =>
    cases halike
    exact List.getElem?_map
  | _ => cases halike; rfl

theorem parameterOffer?_eq {p : Parameter} (hp : Met p.type) (count position index : Nat) :
    d.types.parameterOffer? count position index (p.map f) =
      (c.types.parameterOffer? count position index p).map f := by
  rw [TypeTable.parameterOffer?, TypeTable.parameterOffer?, Parameter.map, h.restType?_eq hp]
  split
  · split <;> rfl
  · split <;> rfl

/-- Signatures that are alike offer the same. -/
theorem signatureOffers_eq {s s' : Signature} (hs : ∀ p ∈ s.params, Met p.type)
    (halike : (s.map f).Alike s') (count position : Nat) :
    d.types.signatureOffers count position s' =
      (c.types.signatureOffers count position s).map f := by
  rw [TypeTable.signatureOffers_eq_filterMap, halike.params, Signature.map, List.map_map,
    List.zipIdx_map, List.filterMap_map, TypeTable.signatureOffers, List.map_filterMap]
  refine List.filterMap_congr fun x hx => ?_
  exact h.parameterOffer?_eq (hs x.1 (List.fst_mem_of_mem_zipIdx hx)) count position x.2

theorem mem_offers_iff (hid : Met id) {E' : TypeId} {kind : CallKind} {count position : Nat} :
    E' ∈ d.offers (f id) kind count position ↔
      ∃ E ∈ c.offers id kind count position, f E = E' := by
  have hmember : (∃ m ∈ d.types.apparentMembers (f id), ∃ s ∈ d.types.signatures kind m,
        E' ∈ d.types.signatureOffers count position s) ↔
      ∃ m ∈ c.types.apparentMembers id, ∃ s ∈ c.types.signatures kind m,
        E' ∈ (c.types.signatureOffers count position s).map f := by
    refine h.exists_apparentMember_iff hid fun m hm => ?_
    refine exists_mem_iff_of_forall₂ ((h.entry hm).signatures_alike kind) fun s hs s' halike => ?_
    have hparams : ∀ p ∈ s.params, Met p.type :=
      fun p hp => h.mentioned (TypeTable.mentions_parameter hs hp)
    rw [h.signatureOffers_eq hparams halike]
  rw [Classifier.mem_offers_iff, hmember]
  constructor
  · rintro ⟨m, hm, s, hs, hE'⟩
    obtain ⟨E, hE, rfl⟩ := List.mem_map.1 hE'
    exact ⟨E, Classifier.mem_offers_iff.2 ⟨m, hm, s, hs, hE⟩, rfl⟩
  · rintro ⟨E, hE, rfl⟩
    obtain ⟨m, hm, s, hs, hE⟩ := Classifier.mem_offers_iff.1 hE
    exact ⟨m, hm, s, hs, List.mem_map_of_mem hE⟩

theorem met_of_mem_offers {E : TypeId} {kind : CallKind} {count position : Nat}
    (hE : E ∈ c.offers id kind count position) : Met E := by
  obtain ⟨m, hm, s, hs, hE⟩ := Classifier.mem_offers_iff.1 hE
  have hparameter : ∀ p ∈ s.params, Met p.type := fun p hp =>
    h.mentioned (TypeTable.mentions_parameter hs hp)
  obtain ⟨p, hp, rfl | hmentions⟩ := TypeTable.exists_of_mem_signatureOffers hE
  · exact hparameter p hp
  · exact h.mentioned hmentions

/-- **The same arguments should return nothing.** -/
theorem mem_voidArguments_iff (hid : Met id) {kind : CallKind} {count : Option Nat}
    {position : Nat} :
    position ∈ d.voidArguments (f id) kind count ↔ position ∈ c.voidArguments id kind count := by
  have hsome : ∀ {n : Nat} {P Q : TypeId → Prop}, (∀ E, Met E → (Q (f E) ↔ P E)) →
      ((∃ E ∈ d.offers (f id) kind n position, Q E) ↔
        ∃ E ∈ c.offers id kind n position, P E) := by
    intro n P Q hPQ
    constructor
    · rintro ⟨E', hE', hq⟩
      obtain ⟨E, hE, rfl⟩ := (h.mem_offers_iff hid).1 hE'
      exact ⟨E, hE, (hPQ E (h.met_of_mem_offers hE)).1 hq⟩
    · rintro ⟨E, hE, hp⟩
      exact ⟨f E, (h.mem_offers_iff hid).2 ⟨E, hE, rfl⟩, (hPQ E (h.met_of_mem_offers hE)).2 hp⟩
  cases count with
  | none => exact Iff.rfl
  | some count =>
    rw [Classifier.mem_voidArguments_iff, Classifier.mem_voidArguments_iff, expectsVoid_iff,
      expectsVoid_iff]
    refine and_congr (hsome fun E hE => ?_) (not_congr (hsome fun E hE => ?_))
    · rw [h.isVoidReturning_eq hE]
    · rw [h.isResultReturning_eq hE]

end Mirrors

theorem Mirrors.of_translates {f : TypeId → TypeId} {t u : TypeTable} (h : t.Translates f u)
    (shape : ResultShape) : Mirrors f (t.Known f) ⟨t, shape⟩ ⟨u, shape⟩ where
  shape := rfl
  entry := h.alikeAt fun _ _ => Iff.rfl
  mentioned := h.known_of_mentions
  apparentType_eq := h.apparentType_eq
  apparentType := h.known_apparentType
  mem_apparentMembers_iff := h.mem_apparentMembers_iff
  apparentMember hm := Or.inl (h.contains_of_mem_apparentMembers hm)

/-- The tables are alike, and a Result is the same in both. -/
structure Alike (c d : Classifier) : Prop where
  types : c.types.Alike SameMembers d.types
  shape : d.shape = c.shape
  source : c.types.WellFormed
  target : d.types.WellFormed

theorem Alike.mirrors {c d : Classifier} (h : c.Alike d) :
    c.Mirrors id (c.types.contains · = true) d where
  shape := h.shape
  entry := h.types.alikeAt
  mentioned := h.source.contains_of_mentions
  apparentType_eq := h.types.apparentType_eq h.source
  apparentType := h.source.contains_apparentType
  mem_apparentMembers_iff hid :=
    (h.types.mem_apparentMembers_iff h.source h.target hid).trans exists_eq_right.symm
  apparentMember := h.source.contains_of_mem_apparentMembers

end Classifier

end ResultLint
