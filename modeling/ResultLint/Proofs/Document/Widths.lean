import ResultLint.Document.Program
import ResultLint.Proofs.Document.Tree
import ResultLint.Proofs.Json.Bounded

/-!
# What is read from a document fits it

Numbers of types and nodes are read with 32 bits, places in the source with 64 and 32, and every
number literal that is read is finite.  So what was read can be written again.

* `NodeKind.fits_of_ofFields?`, `Ty.fits_of_ofJson?`: the numbers in a kind or a type that was read
  have 32 bits.
* `Tree.isFinite_of_ofJson?`: **number literals that were read are finite.**
-/

namespace ResultLint

/-! ## Numbers, lists and fields -/

namespace Json

theorem natural_lt {bound n : Nat} {json : Json} (h : json.natural bound = some n) :
    n < bound := by
  unfold natural at h
  split at h
  · split at h
    · cases h
      omega
    · cases h
  · cases h

theorem exists_of_mem_list {α : Type} {f : Json → Option α} {json : Json} {as : List α}
    (h : json.list f = some as) {a : α} (ha : a ∈ as) :
    ∃ items, json = .array items ∧ ∃ item ∈ items, f item = some a := by
  unfold list at h
  split at h
  next items => exact ⟨items, rfl, exists_of_mem_mapM h ha⟩
  next => cases h

end Json

theorem NodeId.fits_of_ofJson? {json : Json} {id : NodeId} (h : ofJson? json = some id) :
    id.Fits := by
  obtain ⟨n, hn, rfl⟩ := Option.map_eq_some_iff.1 h
  exact Json.natural_lt hn

theorem TypeId.fits_of_ofJson? {json : Json} {id : TypeId} (h : ofJson? json = some id) :
    id.Fits := by
  obtain ⟨n, hn, rfl⟩ := Option.map_eq_some_iff.1 h
  exact Json.natural_lt hn

theorem NodeId.fits_of_mem_list {json : Json} {ids : List NodeId}
    (h : json.list ofJson? = some ids) {n : NodeId} (hn : n ∈ ids) : n.Fits := by
  obtain ⟨_, _, item, _, hitem⟩ := Json.exists_of_mem_list h hn
  exact fits_of_ofJson? hitem

theorem TypeId.fits_of_mem_list {json : Json} {ids : List TypeId}
    (h : json.list ofJson? = some ids) {r : TypeId} (hr : r ∈ ids) : r.Fits := by
  obtain ⟨_, _, item, _, hitem⟩ := Json.exists_of_mem_list h hr
  exact fits_of_ofJson? hitem

namespace Record

variable {α : Type} {r : Record} {name : String} {f : Json → Option α} {a : α}

theorem exists_of_required (h : r.required name f = some a) : ∃ json ∈ r name, f json = some a := by
  unfold required at h
  split at h
  next json hjson => exact ⟨json, by simp [hjson], h⟩
  next => cases h

theorem exists_of_defaulted {default : α} (h : r.defaulted name f default = some a) :
    a = default ∨ ∃ json ∈ r name, f json = some a := by
  unfold defaulted at h
  split at h
  next => exact Or.inl (Option.some.inj h).symm
  next json hjson => exact Or.inr ⟨json, by simp [hjson], h⟩
  next => cases h

theorem exists_of_optional (h : r.optional name f = some (some a)) :
    ∃ json ∈ r name, f json = some a := by
  unfold optional at h
  split at h
  next => cases h
  next json hjson =>
    unfold Json.nullable at h
    split at h
    · cases h
    · obtain ⟨b, hb, hab⟩ := Option.map_eq_some_iff.1 h
      cases hab
      exact ⟨json, by simp [hjson], hb⟩
  next => cases h

end Record

/-! ## Types -/

theorem Parameter.fits_of_ofJson? {json : Json} {p : Parameter} (h : ofJson? json = some p) :
    p.type.Fits := by
  simp only [ofJson?, Option.bind_eq_bind, Option.bind_eq_some_iff, Option.pure_def,
    Option.some.injEq] at h
  obtain ⟨r, _, name, _, type, htype, rest, _, rfl⟩ := h
  obtain ⟨_, _, hread⟩ := Record.exists_of_required htype
  exact TypeId.fits_of_ofJson? hread

theorem Property.fits_of_ofJson? {json : Json} {p : Property} (h : ofJson? json = some p) :
    p.type.Fits := by
  simp only [ofJson?, Option.bind_eq_bind, Option.bind_eq_some_iff, Option.pure_def,
    Option.some.injEq] at h
  obtain ⟨r, _, name, _, type, htype, rfl⟩ := h
  obtain ⟨_, _, hread⟩ := Record.exists_of_required htype
  exact TypeId.fits_of_ofJson? hread

theorem Signature.fits_of_ofJson? {json : Json} {s : Signature} (h : ofJson? json = some s) :
    s.Fits := by
  simp only [ofJson?, Option.bind_eq_bind, Option.bind_eq_some_iff, Option.pure_def,
    Option.some.injEq] at h
  obtain ⟨r, _, params, hparams, returnType, hreturn, rfl⟩ := h
  obtain ⟨_, _, hparams⟩ := Record.exists_of_required hparams
  obtain ⟨_, _, hreturn⟩ := Record.exists_of_required hreturn
  constructor
  · intro p hp
    obtain ⟨_, _, item, _, hitem⟩ := Json.exists_of_mem_list hparams hp
    exact Parameter.fits_of_ofJson? hitem
  · exact TypeId.fits_of_ofJson? hreturn

/-- The items of a list that may be left out. -/
theorem Record.exists_of_mem_defaulted {α : Type} {r : Record} {name : String}
    {f : Json → Option α} {as : List α} (h : r.defaulted name (Json.list f) [] = some as) {a : α}
    (ha : a ∈ as) : ∃ item, f item = some a := by
  rcases exists_of_defaulted h with rfl | ⟨_, _, hlist⟩
  · cases ha
  · obtain ⟨_, _, item, _, hitem⟩ := Json.exists_of_mem_list hlist ha
    exact ⟨item, hitem⟩

theorem ObjectType.fits_of_ofJson? {json : Json} {o : ObjectType} (h : ofJson? json = some o) :
    o.Fits := by
  simp only [ofJson?, Option.bind_eq_bind, Option.bind_eq_some_iff, Option.pure_def,
    Option.some.injEq] at h
  obtain ⟨r, _, name, _, properties, hproperties, calls, hcalls, constructs, hconstructs, rfl⟩ := h
  constructor
  · intro p hp
    obtain ⟨item, hitem⟩ := Record.exists_of_mem_defaulted hproperties hp
    exact Property.fits_of_ofJson? hitem
  · intro s hs
    obtain ⟨item, hitem⟩ := Record.exists_of_mem_defaulted hcalls hs
    exact Signature.fits_of_ofJson? hitem
  · intro s hs
    obtain ⟨item, hitem⟩ := Record.exists_of_mem_defaulted hconstructs hs
    exact Signature.fits_of_ofJson? hitem

theorem Ty.fits_of_ofForm? {form : String} {body : Json} {ty : Ty}
    (h : ofForm? form body = some ty) : ty.Fits := by
  intro r hr
  unfold ofForm? at h
  split at h
  all_goals
    simp only [Option.bind_eq_bind, Option.bind_eq_some_iff, Option.map_eq_map,
      Option.map_eq_some_iff, Option.pure_def, Option.some.injEq, reduceCtorEq] at h
  next =>
    obtain ⟨_, _, p, _, rfl⟩ := h
    cases hr
  next =>
    obtain ⟨_, _, l, _, rfl⟩ := h
    cases hr
  next =>
    obtain ⟨o, ho, rfl⟩ := h
    have hfits := ObjectType.fits_of_ofJson? ho
    cases hr with
    | property hp => exact hfits.property _ hp
    | callParameter hs hp => exact (hfits.call _ hs).param _ hp
    | callReturn hs => exact (hfits.call _ hs).returnType
    | constructParameter hs hp => exact (hfits.construct _ hs).param _ hp
    | constructReturn hs => exact (hfits.construct _ hs).returnType
  next =>
    obtain ⟨_, _, members, hmembers, rfl⟩ := h
    obtain ⟨_, _, hlist⟩ := Record.exists_of_required hmembers
    cases hr with
    | member hm => exact TypeId.fits_of_mem_list hlist hm
  next =>
    obtain ⟨_, _, element, helement, rfl⟩ := h
    obtain ⟨_, _, hread⟩ := Record.exists_of_required helement
    cases hr with
    | arrayElement _ => exact TypeId.fits_of_ofJson? hread
  next =>
    obtain ⟨_, _, elements, helements, rfl⟩ := h
    obtain ⟨_, _, hlist⟩ := Record.exists_of_required helements
    cases hr with
    | tupleElement he => exact TypeId.fits_of_mem_list hlist he
  next =>
    obtain ⟨_, _, name, _, constraint, hconstraint, rfl⟩ := h
    cases hr with
    | constraint _ c =>
      obtain ⟨_, _, hread⟩ := Record.exists_of_optional hconstraint
      exact TypeId.fits_of_ofJson? hread

theorem Ty.fits_of_ofJson? {json : Json} {ty : Ty} (h : ofJson? json = some ty) : ty.Fits := by
  unfold ofJson? at h
  split at h
  · obtain ⟨_, _, h⟩ := Option.bind_eq_some_iff.1 h
    obtain ⟨form, _, hform⟩ := Option.bind_eq_some_iff.1 h
    exact fits_of_ofForm? hform
  · obtain ⟨_, _, hform⟩ := Option.bind_eq_some_iff.1 h
    exact fits_of_ofForm? hform
  · cases h

theorem TypeTable.fits_of_ofJson? {json : Json} {t : TypeTable} (h : ofJson? json = some t) :
    ∀ ty ∈ t.entries, ty.Fits := by
  obtain ⟨types, htypes, rfl⟩ := Option.map_eq_some_iff.1 h
  intro ty hty
  obtain ⟨_, _, item, _, hitem⟩ := Json.exists_of_mem_list htypes (by simpa using hty)
  exact Ty.fits_of_ofJson? hitem

/-! ## Kinds -/

theorem Key.fits_of_ofJson? {json : Json} {n : NodeId} (h : ofJson? json = some (.computed n)) :
    n.Fits := by
  unfold ofJson? at h
  split at h
  · obtain ⟨_, _, heq⟩ := Option.map_eq_some_iff.1 h
    cases heq
  · obtain ⟨id, hid, heq⟩ := Option.map_eq_some_iff.1 h
    cases heq
    exact NodeId.fits_of_ofJson? hid
  · cases h

namespace Record

variable {r : Record} {name : String} {n : NodeId}

theorem fits_of_node (h : r.node name = some n) : n.Fits := by
  obtain ⟨_, _, hread⟩ := exists_of_required h
  exact NodeId.fits_of_ofJson? hread

theorem fits_of_node? (h : r.node? name = some (some n)) : n.Fits := by
  obtain ⟨_, _, hread⟩ := exists_of_optional h
  exact NodeId.fits_of_ofJson? hread

theorem fits_of_nodes {ids : List NodeId} (h : r.nodes name = some ids) (hn : n ∈ ids) :
    n.Fits := by
  obtain ⟨_, _, hlist⟩ := exists_of_required h
  exact NodeId.fits_of_mem_list hlist hn

theorem fits_of_key (h : r.required name Key.ofJson? = some (.computed n)) : n.Fits := by
  obtain ⟨_, _, hread⟩ := exists_of_required h
  exact Key.fits_of_ofJson? hread

theorem fits_of_arguments {ids : List NodeId}
    (h : r.optional name (Json.list NodeId.ofJson?) = some (some ids)) (hn : n ∈ ids) :
    n.Fits := by
  obtain ⟨_, _, hlist⟩ := exists_of_optional h
  exact NodeId.fits_of_mem_list hlist hn

end Record

/-- **The numbers of nodes in a kind that was read have 32 bits.** -/
theorem NodeKind.fits_of_ofFields? {name : String} {r : Record} {k : NodeKind}
    (h : ofFields? name r = some k) : k.Fits := by
  intro n hn
  unfold ofFields? at h
  split at h
  all_goals
    simp only [Option.bind_eq_bind, Option.bind_eq_some_iff, Option.pure_def, Option.some.injEq,
      reduceCtorEq] at h
  all_goals
    grind [NodeKind.Mentions, → Record.fits_of_node, → Record.fits_of_node?,
      → Record.fits_of_nodes, → Record.fits_of_key, → Record.fits_of_arguments]

/-! ## Number literals -/

/-- All values in the record have finite numbers. -/
def Record.Bounded (r : Record) : Prop := ∀ name, ∀ json ∈ r name, json.Bounded

namespace Json

theorem bounded_values {fields : List (String × Json)} (h : ∀ field ∈ fields, field.2.Bounded) :
    (values fields).Bounded := by
  intro name json hjson
  obtain ⟨field, hfield, rfl⟩ := List.mem_map.1 hjson
  exact h field (List.mem_filter.1 hfield).1

theorem bounded_record {names : List String} {json : Json} {r : Record} (h : json.Bounded)
    (hr : json.record names = some r) : r.Bounded := by
  unfold record at hr
  split at hr
  · cases hr
    cases h with
    | object hfields => exact bounded_values hfields
  · split at hr
    · cases hr
      cases h with
      | array hitems =>
        exact bounded_values fun field hfield => hitems _ (List.of_mem_zip hfield).2
    · cases hr
  · cases hr

theorem bounded_of_entry {json value : Json} {name : String} (h : json.Bounded)
    (hentry : json.entry = some (name, value)) : value.Bounded := by
  unfold entry at hentry
  split at hentry
  · cases hentry
    cases h with
    | object hfields => exact hfields _ List.mem_cons_self
  · cases hentry

end Json

theorem LiteralValue.isFinite_of_ofJson? {json : Json} (hjson : json.Bounded) {x : Binary64}
    (h : ofJson? json = some (.number x)) : x.isFinite = true := by
  unfold ofJson? at h
  split at h
  case h_4 value hentry _ _ =>
    obtain ⟨y, hy, heq⟩ := Option.map_eq_some_iff.1 h
    cases heq
    exact Binary64.isFinite_of_ofJson? (Json.bounded_of_entry hjson hentry) hy
  all_goals simp at h

theorem NodeKind.isFinite_of_ofFields? {name : String} {r : Record} (hr : r.Bounded)
    {x : Binary64} (h : ofFields? name r = some (.literal (.number x))) : x.isFinite = true := by
  unfold ofFields? at h
  split at h
  all_goals
    simp only [Option.bind_eq_bind, Option.bind_eq_some_iff, Option.pure_def, Option.some.injEq,
      reduceCtorEq, and_false, exists_false] at h
  -- only the kind of literals is left
  obtain ⟨value, hvalue, heq⟩ := h
  cases heq
  obtain ⟨json, hjson, hread⟩ := Record.exists_of_required hvalue
  exact LiteralValue.isFinite_of_ofJson? (hr _ json hjson) hread

/-! ## Nodes and trees -/

theorem Span.fits_of_ofJson? {json : Json} {s : Span} (h : ofJson? json = some s) : s.Fits := by
  simp only [ofJson?, Option.bind_eq_bind, Option.bind_eq_some_iff, Option.pure_def,
    Option.some.injEq] at h
  obtain ⟨r, _, start, hstart, stop, hstop, line, hline, column, hcolumn, rfl⟩ := h
  obtain ⟨_, _, hstart⟩ := Record.exists_of_required hstart
  obtain ⟨_, _, hstop⟩ := Record.exists_of_required hstop
  obtain ⟨_, _, hline⟩ := Record.exists_of_required hline
  obtain ⟨_, _, hcolumn⟩ := Record.exists_of_required hcolumn
  exact ⟨Json.natural_lt hstart, Json.natural_lt hstop, Json.natural_lt hline,
    Json.natural_lt hcolumn⟩

namespace Node

theorem exists_of_ofJson? {json : Json} {n : Node} (h : ofJson? json = some n) :
    ∃ fields, json = .object fields ∧ ofRecord? (Json.values fields) = some n := by
  unfold ofJson? at h
  split at h
  next fields =>
    obtain ⟨_, _, hread⟩ := Option.bind_eq_some_iff.1 h
    exact ⟨fields, rfl, hread⟩
  next => cases h

theorem exists_of_ofRecord? {r : Record} {n : Node} (h : ofRecord? r = some n) :
    (∃ name, NodeKind.ofFields? name r = some n.kind) ∧
      r.defaulted "span" Span.ofJson? {} = some n.span ∧
      r.optional "ty" TypeId.ofJson? = some n.type ∧
      r.optional "contextualType" TypeId.ofJson? = some n.contextualType := by
  simp only [ofRecord?, Option.bind_eq_bind, Option.bind_eq_some_iff, Option.pure_def,
    Option.some.injEq] at h
  obtain ⟨name, _, kind, hkind, span, hspan, type, htype, contextualType, hcontextual, rfl⟩ := h
  exact ⟨⟨name, hkind⟩, hspan, htype, hcontextual⟩

theorem fits_of_ofJson? {json : Json} {n : Node} (h : ofJson? json = some n) : n.Fits := by
  obtain ⟨fields, _, hread⟩ := exists_of_ofJson? h
  obtain ⟨⟨name, hkind⟩, hspan, htype, hcontextual⟩ := exists_of_ofRecord? hread
  constructor
  · exact NodeKind.fits_of_ofFields? hkind
  · rcases Record.exists_of_defaulted hspan with hdefault | ⟨_, _, hspan⟩
    · rw [hdefault]
      exact ⟨by decide, by decide, by decide, by decide⟩
    · exact Span.fits_of_ofJson? hspan
  · intro r hr
    rw [Option.mem_def.1 hr] at htype
    obtain ⟨_, _, htype⟩ := Record.exists_of_optional htype
    exact TypeId.fits_of_ofJson? htype
  · intro r hr
    rw [Option.mem_def.1 hr] at hcontextual
    obtain ⟨_, _, hcontextual⟩ := Record.exists_of_optional hcontextual
    exact TypeId.fits_of_ofJson? hcontextual

theorem isFinite_of_ofJson? {json : Json} (hjson : json.Bounded) {n : Node}
    (h : ofJson? json = some n) {x : Binary64} (hx : n.kind = .literal (.number x)) :
    x.isFinite = true := by
  obtain ⟨fields, rfl, hread⟩ := exists_of_ofJson? h
  obtain ⟨⟨name, hkind⟩, _⟩ := exists_of_ofRecord? hread
  rw [hx] at hkind
  cases hjson with
  | object hfields => exact NodeKind.isFinite_of_ofFields? (Json.bounded_values hfields) hkind

end Node

namespace Tree

theorem exists_of_ofJson? {json : Json} {t : Tree} (h : ofJson? json = some t) :
    ∃ r, json.record ["nodes", "root"] = some r ∧
      r.required "nodes" (Json.list Node.ofJson?) = some t.nodes.toList ∧
      r.required "root" NodeId.ofJson? = some t.root := by
  simp only [ofJson?, Option.bind_eq_bind, Option.bind_eq_some_iff, Option.pure_def,
    Option.some.injEq] at h
  obtain ⟨r, hr, nodes, hnodes, root, hroot, rfl⟩ := h
  exact ⟨r, hr, hnodes, hroot⟩

theorem fits_of_ofJson? {json : Json} {t : Tree} (h : ofJson? json = some t) : t.Fits := by
  obtain ⟨r, _, hnodes, hroot⟩ := exists_of_ofJson? h
  obtain ⟨_, _, hnodes⟩ := Record.exists_of_required hnodes
  obtain ⟨_, _, hroot⟩ := Record.exists_of_required hroot
  refine ⟨fun n hn => ?_, NodeId.fits_of_ofJson? hroot⟩
  obtain ⟨_, _, item, _, hitem⟩ := Json.exists_of_mem_list hnodes (Array.mem_toList_iff.2 hn)
  exact Node.fits_of_ofJson? hitem

/-- **Number literals that were read are finite.** -/
theorem isFinite_of_ofJson? {json : Json} (hjson : json.Bounded) {t : Tree}
    (h : ofJson? json = some t) {x : Binary64} (hx : t.HasNumber x) : x.isFinite = true := by
  obtain ⟨r, hr, hnodes, _⟩ := exists_of_ofJson? h
  obtain ⟨list, hlist, hnodes⟩ := Record.exists_of_required hnodes
  have hbounded := Json.bounded_record hjson hr "nodes" list hlist
  obtain ⟨n, hn, hkind⟩ := hx
  obtain ⟨items, rfl, item, hitem, hread⟩ :=
    Json.exists_of_mem_list hnodes (Array.mem_toList_iff.2 hn)
  cases hbounded with
  | array hitems => exact Node.isFinite_of_ofJson? (hitems item hitem) hread hkind

end Tree

end ResultLint
