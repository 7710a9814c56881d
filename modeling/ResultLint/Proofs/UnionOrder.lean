import Mathlib
import ResultLint.Proofs.Alike.Methods

/-!
# The order of union members

Nearly every question about a union is a question about all or some of its members, and has the same
answer when the members are listed in another order.  Only what a method should return is looked up
in the first member that has it.  The order matters for a method that is disputed, if another member
becomes the first and it says something else, and for nothing else.

* `alike_setUnion`: the table with the members in another order is like the table.
* `findings_setUnion`: **the program has the same findings**, disputed methods apart.
* `setUnion_changes_findings`: for disputed methods it may not.
-/

namespace ResultLint

namespace TypeTable

variable {t : TypeTable} {u : TypeId} {members members' : List TypeId}

/-- The table in which a union has other members. -/
def setUnion (t : TypeTable) (u : TypeId) (members : List TypeId) : TypeTable :=
  ⟨t.entries.setIfInBounds u.index (.union members)⟩

theorem get?_setUnion_self (hu : t.contains u = true) :
    (t.setUnion u members).get? u = some (.union members) := by
  have hlt : u.index < t.size := of_decide_eq_true hu
  exact Array.getElem?_setIfInBounds_self_of_lt hlt

theorem get?_setUnion_of_ne {id : TypeId} (hid : id ≠ u) :
    (t.setUnion u members).get? id = t.get? id := by
  have hne : u.index ≠ id.index := by
    intro h
    exact hid (congrArg TypeId.mk h.symm)
  exact Array.getElem?_setIfInBounds_ne hne

theorem contains_setUnion (id : TypeId) :
    (t.setUnion u members).contains id = t.contains id := by
  rw [contains, contains, size, size, setUnion, Array.size_setIfInBounds]

/-- What does not lead to the union is as it was. -/
theorem WellFormed.sameOrder_setUnion (h : t.WellFormed)
    (hu : t.get? u = some (.union members)) :
    t.SameOrder (t.setUnion u members') fun id => t.contains id = true ∧ ¬ t.Reaches id u where
  contains ha := ha.1
  standsFor ha hab := ⟨h.contains_of_standsFor hab, fun hbu => ha.2 (.head hab hbu)⟩
  unknown := by
    refine ⟨contains_iff.2 ⟨_, h.primitive .unknown⟩, fun hpath => ?_⟩
    -- a primitive is no union and stands for nothing else
    rcases hpath.cases_head with rfl | ⟨b, hstep, _⟩
    · cases hu.symm.trans (h.primitive .unknown)
    · rcases hstep with ⟨_, hb, _⟩ | ⟨_, hb⟩ <;> cases hb.symm.trans (h.primitive .unknown)
  union? := by
    intro a ha
    have hne : a ≠ u := by
      rintro rfl
      exact ha.2 .refl
    rw [TypeTable.union?, TypeTable.union?, get?_setUnion_of_ne hne]

variable (hu : t.get? u = some (.union members)) (hperm : members'.Perm members)

include hu hperm

/-- **The table with the members in another order is like the table.** -/
theorem alike_setUnion : t.Alike SameMembers (t.setUnion u members') where
  entry := by
    intro id ty hty
    by_cases hid : id = u
    · subst hid
      rw [hu] at hty
      cases hty
      exact ⟨_, get?_setUnion_self (contains_iff.2 ⟨_, hu⟩), .union fun m => hperm.mem_iff⟩
    · exact ⟨ty, by rw [get?_setUnion_of_ne hid, hty], .refl (fun _ _ => Iff.rfl) ty⟩

theorem WellFormed.setUnion (h : t.WellFormed) : (t.setUnion u members').WellFormed := by
  constructor
  · intro p
    have hne : p.id ≠ u := by
      rintro rfl
      rw [h.primitive] at hu
      cases hu
    rw [get?_setUnion_of_ne hne, h.primitive]
  · intro id ty r hty hr
    rw [contains_setUnion]
    by_cases hid : id = u
    · subst hid
      rw [get?_setUnion_self (contains_iff.2 ⟨_, hu⟩)] at hty
      cases hty
      cases hr with
      | member hr => exact h.mentioned hu (.member (hperm.mem_iff.1 hr))
    · rw [get?_setUnion_of_ne hid] at hty
      exact h.mentioned hty hr

end TypeTable

/-! ## Programs -/

namespace Program

/-- The program in which a union has other members. -/
def setUnion (p : Program) (u : TypeId) (members : List TypeId) : Program :=
  ⟨p.types.setUnion u members, p.tree⟩

variable {p : Program} {u : TypeId} {members members' : List TypeId}
  (hu : p.types.get? u = some (.union members)) (hperm : members'.Perm members) (h : p.Valid)

include hu hperm h

theorem Valid.setUnion : (p.setUnion u members').Valid where
  types := h.types.setUnion hu hperm
  root := h.root
  child := h.child
  type hn ht := (TypeTable.contains_setUnion _).trans (h.type hn ht)
  contextualType hn ht := (TypeTable.contains_setUnion _).trans (h.contextualType hn ht)

variable (shape : ResultShape)

theorem alike_setUnion :
    Classifier.Alike ⟨p.types, shape⟩ ⟨(p.setUnion u members').types, shape⟩ :=
  ⟨TypeTable.alike_setUnion hu hperm, rfl, h.types, h.types.setUnion hu hperm⟩

/-- **All questions about the types of nodes have the same answers.** -/
theorem agrees_setUnion : Context.Agrees ⟨p, shape⟩ ⟨p.setUnion u members', shape⟩ :=
  .of_alike (alike_setUnion hu hperm h shape) h rfl rfl
    (fun _ => rel_self .refl _) (fun _ => .refl _ _)
    fun _ => rel_self (.refl _) _

/-- A method is expected to be the same, unless it is disputed, `r` leads to the union and the first
member that has the method says something else. -/
theorem expectsVoidMethod_setUnion {method : String} {r : TypeId}
    (hr : p.types.contains r = true)
    (hmethod : p.types.Reaches r u → Context.Disputed ⟨p, shape⟩ method r →
      (Context.FirstVoid ⟨p.setUnion u members', shape⟩ method r ↔
        Context.FirstVoid ⟨p, shape⟩ method r)) :
    Misuse.expectsVoidMethod ⟨p.setUnion u members', shape⟩ method r =
      Misuse.expectsVoidMethod ⟨p, shape⟩ method r := by
  have halike := alike_setUnion hu hperm h shape
  by_cases hreaches : p.types.Reaches r u
  · by_cases hdisputed : Context.Disputed ⟨p, shape⟩ method r
    · rw [Bool.eq_iff_iff, Context.expectsVoidMethod_iff_first, Context.expectsVoidMethod_iff_first]
      exact hmethod hreaches hdisputed
    · exact Context.expectsVoidMethod_eq halike hr (.refl _ _) hdisputed
  · exact Context.expectsVoidMethod_congr halike
      ((h.types.sameOrder_setUnion hu).apparentMembers_eq halike.types h.types ⟨hr, hreaches⟩)

theorem expectsVoidAt_setUnion {method : String} {position : Position} {holder : NodeId}
    (hmethod : ∀ r, p.typeIn? position holder = some r →
      p.types.Reaches r u → Context.Disputed ⟨p, shape⟩ method r →
      (Context.FirstVoid ⟨p.setUnion u members', shape⟩ method r ↔
        Context.FirstVoid ⟨p, shape⟩ method r)) :
    Context.expectsVoidAt ⟨p.setUnion u members', shape⟩ method position holder =
      Context.expectsVoidAt ⟨p, shape⟩ method position holder := by
  refine Context.expectsVoidAt_congr h.types (h.types.setUnion hu hperm) ?_
  change Option.Rel _ (p.typeIn? position holder) (p.typeIn? position holder)
  cases hr : p.typeIn? position holder with
  | none => exact .none
  | some r =>
    exact .some (expectsVoidMethod_setUnion hu hperm h shape (h.contains_typeIn? hr) (hmethod r hr))

end Program

/-! ## Findings -/

/-- The finding is about a method that should be as a type says which leads to `u`, and on which the
apparent members of the type disagree.  With the new members of `u`, the first apparent member that
has the method says something else than the first one did. -/
def Program.AboutDisputed (p : Program) (shape : ResultShape) (u : TypeId) (members : List TypeId)
    (x : Finding) : Prop :=
  ∃ position holder name r, p.tree.MethodBy position holder name x ∧
    p.typeIn? position holder = some r ∧ p.types.Reaches r u ∧
    Context.Disputed ⟨p, shape⟩ name r ∧
    ¬ (Context.FirstVoid ⟨p.setUnion u members, shape⟩ name r ↔ Context.FirstVoid ⟨p, shape⟩ name r)

theorem Tree.MethodBy.rule_eq {t : Tree} {position : Position} {holder : NodeId} {name : String}
    {x : Finding} (h : t.MethodBy position holder name x) : x.1 = Misuse.info.name := by
  cases h <;> rfl

namespace Config

open Diagnostic (findings)

/-- **The order of union members does not matter.**  If the members of a union are listed in another
order, the program is valid and has the same findings, apart from those about disputed methods for
which the first member that has them comes to say something else. -/
theorem findings_setUnion {p : Program} (h : p.validate = .ok ()) {u : TypeId}
    {members members' : List TypeId} (hu : p.types.get? u = some (.union members))
    (hperm : members'.Perm members) :
    (p.setUnion u members').validate = .ok () ∧
    ∀ (config : Config) (x : Finding), ¬ p.AboutDisputed config.shape u members' x →
      (x ∈ findings (config.lint (p.setUnion u members')) ↔ x ∈ findings (config.lint p)) := by
  have h : p.Valid := Program.validate_eq_ok_iff.1 h
  have hq := Program.Valid.setUnion hu hperm h
  refine ⟨Program.validate_eq_ok_iff.2 hq, fun config => ?_⟩
  have hagrees := Program.agrees_setUnion hu hperm h config.shape
  have hcompared : Context.ComparedAlong id
      (Diagnostic.SameBut (p.AboutDisputed config.shape u members')) ⟨p, config.shape⟩
      ⟨p.setUnion u members', config.shape⟩ := by
    refine hagrees.compared_findings ?_ ?_
    · intro _ _ _ _ _ key _ _ _ _ _ _
      refine hagrees.namesPredicate_eq fun n _ _ => ?_
      have hliteral : (p.setUnion u members').types.stringLiteral? (p.typeAt n) =
          p.types.stringLiteral? (p.typeAt n) :=
        (TypeTable.alike_setUnion hu hperm).stringLiteral?_eq (h.contains_typeAt n)
      exact congrArg (Option.any _) hliteral
    · intro position holder method x hx hnot
      refine Program.expectsVoidAt_setUnion hu hperm h config.shape ?_
      intro r hr hreaches hdisputed
      by_contra hfirst
      exact hnot ⟨position, holder, method, r, hx, hr, hreaches, hdisputed, hfirst⟩
  rw [findings_lint, findings_lint]
  exact hagrees.run_compared ((Diagnostic.comparison_sameBut _).along _) hcompared config

/-- An object and an interface with a method `m` that returns a Result, and `r;`.  The method should
be like a member of the union 15, of which the first expects it to return nothing and the second is
no function; `r` is that union or a Result. -/
def disputedProgram : Program :=
  ⟨⟨TypeTable.primitives.entries ++ #[
      .literal (.string "success"),
      .object { properties := [⟨"tag", ⟨9⟩⟩, ⟨"success", ⟨7⟩⟩] },
      .object { callSignatures := [⟨[], ⟨3⟩⟩] },
      .object { callSignatures := [⟨[], ⟨10⟩⟩] },
      .object { properties := [⟨"m", ⟨11⟩⟩] },
      .object { properties := [⟨"m", ⟨7⟩⟩] },
      .union [⟨13⟩, ⟨14⟩],
      .union [⟨15⟩, ⟨10⟩]]⟩,
    ⟨#[
      { kind := .block [] },
      { kind := .function .expression none [] ⟨0⟩, type := some ⟨12⟩ },
      { kind := .property (.name "m") ⟨1⟩ .method },
      { kind := .objectLiteral [⟨2⟩], contextualType := some ⟨15⟩ },
      { kind := .expressionStatement ⟨3⟩ },
      { kind := .identifier "P", type := some ⟨15⟩ },
      { kind := .classMember (.name "m") .signature none false, type := some ⟨12⟩ },
      { kind := .interfaceDeclaration "C" [⟨5⟩] [⟨6⟩] },
      { kind := .identifier "r", type := some ⟨16⟩ },
      { kind := .expressionStatement ⟨8⟩ },
      { kind := .program [⟨4⟩, ⟨7⟩, ⟨9⟩] }], ⟨10⟩⟩⟩

theorem findings_disputedProgram : findings (Config.lint {} disputedProgram) =
    [Misuse.finding .voidReturnProperty ⟨1⟩, Misuse.finding (.voidReturnInheritedMethod "") ⟨6⟩,
      (Floating.info.name, DiagnosticKind.floating.id, ⟨9⟩)] := by
  cbv

/-- The dropped union is reported in either order of its members. -/
theorem findings_setUnion_dropped :
    disputedProgram.validate = .ok () ∧
    disputedProgram.types.get? ⟨15⟩ = some (.union [⟨13⟩, ⟨14⟩]) ∧
    ¬ disputedProgram.AboutDisputed {} ⟨15⟩ [⟨14⟩, ⟨13⟩]
      (Floating.info.name, DiagnosticKind.floating.id, ⟨9⟩) ∧
    (Floating.info.name, DiagnosticKind.floating.id, ⟨9⟩) ∈
      findings (Config.lint {} (disputedProgram.setUnion ⟨15⟩ [⟨14⟩, ⟨13⟩])) := by
  have hu : disputedProgram.types.get? ⟨15⟩ = some (.union [⟨13⟩, ⟨14⟩]) := rfl
  have hperm : [⟨14⟩, ⟨13⟩].Perm [(⟨13⟩ : TypeId), ⟨14⟩] := List.Perm.swap _ _ _
  have hnot : ¬ disputedProgram.AboutDisputed {} ⟨15⟩ [⟨14⟩, ⟨13⟩]
      (Floating.info.name, DiagnosticKind.floating.id, ⟨9⟩) := by
    rintro ⟨position, holder, name, r, hx, -⟩
    exact absurd hx.rule_eq (by decide)
  refine ⟨rfl, hu, hnot, ?_⟩
  rw [(findings_setUnion rfl hu hperm).2 {} _ hnot, findings_disputedProgram]
  exact List.mem_of_getElem? (i := 2) rfl

/-- The methods are reported only as long as the member that expects them to return nothing is
listed first. -/
theorem setUnion_changes_findings :
    disputedProgram.validate = .ok () ∧
    disputedProgram.types.get? ⟨15⟩ = some (.union [⟨13⟩, ⟨14⟩]) ∧
    findings (Config.lint {} disputedProgram) =
      [Misuse.finding .voidReturnProperty ⟨1⟩, Misuse.finding (.voidReturnInheritedMethod "") ⟨6⟩,
        (Floating.info.name, DiagnosticKind.floating.id, ⟨9⟩)] ∧
    findings (Config.lint {} (disputedProgram.setUnion ⟨15⟩ [⟨14⟩, ⟨13⟩])) =
      [(Floating.info.name, DiagnosticKind.floating.id, ⟨9⟩)] :=
  ⟨rfl, rfl, findings_disputedProgram, by cbv⟩

end Config

end ResultLint
