import Mathlib
import ResultLint.Proofs.Alike.Methods
import ResultLint.Proofs.Arguments

/-!
# Places where nothing should be returned

A function that returns a Result is reported where one that returns nothing is expected.  What is
expected is known in different ways: by the type of a variable, by what the surroundings of a value
expect, by the parameters of a callee, or by a property of the type around a method.  All of them
come to the same.

* `returnsResult_eq`: whether a node returns a Result, by its own type.
* `Signature.Takes`, `Takes.offers_iff`: parameters that expect one type of an argument.
* `Placed`: a value in a place where a type is expected.
* `positions_agree`: **the value is reported in all places or in none.**
-/

namespace ResultLint

/-! ## Values -/

/-- The type amounts to `m` and to nothing else. -/
def TypeTable.OnlyMember (t : TypeTable) (id m : TypeId) : Prop :=
  ∀ x, x ∈ t.apparentMembers id ↔ x = m

namespace Context

variable {c : Context}

/-- A node returns a Result if its type does. -/
theorem returnsResult_eq (h : c.program.types.WellFormed) (n : NodeId) :
    c.returnsResult n = c.classifier.isResultReturning (c.program.typeAt n) :=
  (Classifier.verdicts_congr (c := c.classifier) fun _ =>
    TypeTable.mem_apparentMembers_apparentType_iff (h.primitive .unknown)).2.2.2.1

/-- Where a type amounts to one type, its properties are those of that. -/
theorem apparentProperty?_of_onlyMember {id m : TypeId} (hm : c.program.types.OnlyMember id m)
    (name : String) : c.apparentProperty? id name = c.program.types.property? m name := by
  rw [apparentProperty?]
  cases hfound : (c.apparentMembers id).findSome? fun x => c.program.types.property? x name with
  | none => exact (List.findSome?_eq_none_iff.1 hfound m ((hm m).2 rfl)).symm
  | some e =>
    obtain ⟨x, hx, hp⟩ := List.exists_of_findSome?_eq_some hfound
    rw [(hm x).1 hx] at hp
    exact hp.symm

end Context

/-! ## Arguments -/

/-- For the argument at an index a signature expects one type: that of the parameter there, with no
rest parameter before it, or that of the elements of the only rest parameter, which is the last. -/
inductive Signature.Takes (t : TypeTable) (s : Signature) (index : Nat) (E : TypeId) : Prop
  | fixed {p : Parameter} (hp : s.params[index]? = some p) (hrest : p.rest = false)
      (htype : p.type = E)
      (hbefore : ∀ i < index, ∀ q, s.params[i]? = some q → q.rest = false)
  | rest {front : List Parameter} {p : Parameter} (hparams : s.params = front ++ [p])
      (hfront : ∀ q ∈ front, q.rest = false) (hrest : p.rest = true)
      (hindex : front.length ≤ index) (hty : t.resolve (t.apparentType p.type) = .array E)

namespace Signature

variable {t : TypeTable} {s : Signature} {index count : Nat} {E F : TypeId}

/-- Every parameter is in front of the last one, or is it. -/
theorem param_cases {front : List Parameter} {p : Parameter} (hparams : s.params = front ++ [p])
    (hfront : ∀ q ∈ front, q.rest = false) {i : Nat} {q : Parameter} (hq : s.params[i]? = some q) :
    (i < front.length ∧ q.rest = false) ∨ q = p := by
  rw [hparams] at hq
  rcases Nat.lt_or_ge i front.length with hi | hi
  · rw [List.getElem?_append_left hi] at hq
    exact Or.inl ⟨hi, hfront q (List.mem_of_getElem? hq)⟩
  · rw [List.getElem?_append_right hi] at hq
    exact Or.inr (List.mem_singleton.1 (List.mem_of_getElem? hq))

namespace Takes

/-- A rest parameter that could offer something offers elements of the expected type. -/
theorem rest_type (h : s.Takes t index E) {i : Nat} {q : Parameter} (hi : i ≤ index)
    (hq : s.params[i]? = some q) (hrest : q.rest = true) :
    t.resolve (t.apparentType q.type) = .array E := by
  cases h with
  | fixed hp hprest _ hbefore =>
    have hnone : q.rest = false := by
      rcases Nat.lt_or_eq_of_le hi with hi | rfl
      · exact hbefore i hi q hq
      · rw [hp] at hq
        cases hq
        exact hprest
    exact absurd hnone (Bool.ne_false_iff.2 hrest)
  | rest hparams hfront _ _ hty =>
    rcases param_cases hparams hfront hq with ⟨_, hnone⟩ | rfl
    · exact absurd hnone (Bool.ne_false_iff.2 hrest)
    · exact hty

/-- The parameter at the index has the expected type, unless it is a rest parameter. -/
theorem param_type (h : s.Takes t index E) {q : Parameter} (hq : s.params[index]? = some q)
    (hrest : q.rest = false) : q.type = E := by
  cases h with
  | fixed hp _ htype _ =>
    rw [hp] at hq
    cases hq
    exact htype
  | rest hparams hfront hprest hindex _ =>
    rcases param_cases hparams hfront hq with ⟨hlt, _⟩ | rfl
    · omega
    · exact absurd hrest (Bool.ne_false_iff.2 hprest)

/-- Nothing but the expected type is offered. -/
theorem eq_of_offers (h : s.Takes t index E) (hF : s.Offers t count index F) : F = E := by
  cases hF with
  | fixed hq hrest => exact h.param_type hq hrest
  | array hq hrest hi _ hty => exact Ty.array.inj (hty.symm.trans (h.rest_type hi hq hrest))
  | tuple hq hrest hi _ hty _ => exact nomatch hty.symm.trans (h.rest_type hi hq hrest)

/-- The expected type is offered for an argument. -/
theorem offers (h : s.Takes t index E) (hcount : index < count) : s.Offers t count index E := by
  cases h with
  | fixed hp hrest htype _ =>
    rw [← htype]
    exact .fixed hp hrest
  | @rest front p hparams _ hrest hindex hty =>
    have hp : s.params[front.length]? = some p := by
      rw [hparams, List.getElem?_concat_length]
    exact .array hp hrest hindex hcount hty

theorem offers_iff (h : s.Takes t index E) (hcount : index < count) :
    s.Offers t count index F ↔ F = E :=
  ⟨h.eq_of_offers, fun hF => hF ▸ h.offers hcount⟩

end Takes

end Signature

/-- **With one signature an argument should return nothing if the expected type does.**  Such a type
never returns a Result as well. -/
theorem Classifier.mem_voidArguments_of_takes {c : Classifier} {callee m E : TypeId}
    {kind : CallKind} {s : Signature} {index count : Nat} (hm : c.types.OnlyMember callee m)
    (hs : c.types.signatures kind m = [s]) (htakes : s.Takes c.types index E)
    (hcount : index < count) :
    index ∈ c.voidArguments callee kind (some count) ↔ c.isVoidReturning E = true := by
  have hsome : ∀ P : TypeId → Prop, (∃ m ∈ c.types.apparentMembers callee,
      ∃ s ∈ c.types.signatures kind m, ∃ F, s.Offers c.types count index F ∧ P F) ↔ P E := by
    intro P
    constructor
    · rintro ⟨x, hx, s', hs', F, hF, hP⟩
      rw [(hm x).1 hx, hs] at hs'
      rw [List.mem_singleton.1 hs', htakes.offers_iff hcount] at hF
      exact hF ▸ hP
    · intro hP
      exact ⟨m, (hm m).2 rfl, s, hs ▸ List.mem_singleton_self s, E, htakes.offers hcount, hP⟩
  rw [mem_voidArguments_iff_offers, hsome, hsome, and_iff_left_of_imp]
  intro hvoid hresult
  rw [(isVoidReturning_iff.1 hvoid).2] at hresult
  cases hresult

namespace Misuse

variable {c : Context}

/-- What is found about the argument at a position, of so many. -/
def checkArgument (c : Context) (kind : CallKind) (callee : NodeId) (count position : Nat)
    (argument : NodeId) : List Diagnostic :=
  reportIf c (position ∈ c.classifier.voidArguments (c.program.typeAt callee) kind (some count) &&
    c.returnsResult argument) .voidReturnArgument argument

theorem map_report_filter {α : Type} (c : Context) (kind : DiagnosticKind) (node : α → NodeId)
    (condition : α → Bool) (l : List α) :
    ((l.filter condition).map node).map (c.report info kind) =
      l.flatMap fun x => reportIf c (condition x) kind (node x) := by
  induction l with
  | nil => rfl
  | cons x l ih =>
    rw [List.filter_cons, List.flatMap_cons, ← ih, reportIf]
    split <;> rfl

/-- Arguments are looked at one by one. -/
theorem checkArguments_eq_flatMap (c : Context) (kind : CallKind) (callee : NodeId)
    (arguments : List NodeId) : checkArguments c kind callee (some arguments) =
      arguments.zipIdx.flatMap fun x => checkArgument c kind callee arguments.length x.2 x.1 := by
  rw [checkArguments, misplacedArguments]
  exact map_report_filter c .voidReturnArgument Prod.fst _ _

/-! ## Places -/

/-- The value `v` stands where the type `E` is expected.  The first list is what is found there, and
a report would be of that kind and on that node.  A member of a class stands for any value of its
type. -/
inductive Placed (c : Context) (E : TypeId) (v : NodeId) :
    List Diagnostic → DiagnosticKind → NodeId → Prop
  | assigned {target : NodeId} (htarget : c.program.typeAt target = E) :
      Placed c E v (checkAssignment c target v) .voidReturnVariable v
  | declared {declarator target : NodeId}
      (hk : c.tree.kind? declarator = some (.variableDeclarator target (some v)))
      (htarget : c.program.typeAt target = E) :
      Placed c E v (checkDeclarator c declarator) .voidReturnVariable v
  | returned (hE : c.program.contextualType? v = some E) :
      Placed c E v (checkReturn c v) .voidReturnReturnValue v
  | property {object property : NodeId} {key : Key} {form : PropertyForm}
      (hk : c.tree.kind? property = some (.property key v form)) (hform : form ≠ .method)
      (hE : c.program.contextualType? v = some E) :
      Placed c E v (checkProperty c object property) .voidReturnProperty v
  | attribute_ {node : NodeId} {name : String}
      (hk : c.tree.kind? node = some (.elementAttribute name (some v)))
      (hliteral : isLiteral c v = false) (hE : c.program.contextualType? v = some E) :
      Placed c E v (checkAttribute c node) .voidReturnAttribute v
  | argument {kind : CallKind} {callee : NodeId} {arguments : List NodeId} {index : Nat}
      {m : TypeId} {s : Signature} (hv : arguments[index]? = some v)
      (hm : c.program.types.OnlyMember (c.program.typeAt callee) m)
      (hs : c.program.types.signatures kind m = [s]) (htakes : s.Takes c.program.types index E) :
      Placed c E v (checkArgument c kind callee arguments.length index v) .voidReturnArgument v
  | method {object property : NodeId} {name : String} {type m : TypeId}
      (hk : c.tree.kind? property = some (.property (.name name) v .method))
      (htype : c.program.contextualType? object = some type)
      (hm : c.program.types.OnlyMember type m)
      (hE : c.program.types.property? m name = some E) :
      Placed c E v (checkProperty c object property) .voidReturnProperty v
  | inherited {declaration clause member : NodeId} {declared : NodeKind} {members : List NodeId}
      {name : String} {form : MemberForm} {value : Option NodeId} {m : TypeId}
      (hdeclaration : c.tree.kind? declaration = some declared)
      (hparts : declared.classLike? = some ([clause], members))
      (hk : c.tree.kind? member = some (.classMember (.name name) form value false))
      (hv : c.program.typeAt member = c.program.typeAt v)
      (hm : c.program.types.OnlyMember (c.program.typeAt clause) m)
      (hE : c.program.types.property? m name = some E) :
      Placed c E v (checkInherited c declaration member)
        (.voidReturnInheritedMethod (c.program.types.display (c.program.typeAt clause))) member

theorem isMisplacedInContext_of_expected {E : TypeId} {v : NodeId}
    (hE : c.program.contextualType? v = some E) :
    isMisplacedInContext c v = isMisplaced c E v := by
  rw [isMisplacedInContext, hE, Option.any_some]

theorem expectsVoidMethod_of_onlyMember {id m E : TypeId} {name : String}
    (hm : c.program.types.OnlyMember id m) (hE : c.program.types.property? m name = some E) :
    expectsVoidMethod c name id = c.classifier.isVoidReturning E := by
  rw [expectsVoidMethod, Context.apparentProperty?_of_onlyMember hm, hE, Option.any_some]

/-- **In every place the same is asked.** -/
theorem Placed.found_eq {E : TypeId} {v n : NodeId} {found : List Diagnostic}
    {kind : DiagnosticKind} (hp : Placed c E v found kind n)
    (h : c.program.types.WellFormed) : found = reportIf c (isMisplaced c E v) kind n := by
  cases hp with
  | assigned htarget => rw [checkAssignment, htarget]
  | declared hk htarget =>
    rw [checkDeclarator, hk]
    dsimp only
    rw [checkAssignment, htarget]
  | returned hE => rw [checkReturn, isMisplacedInContext_of_expected hE]
  | @property object property key form hk hform hE =>
    rw [checkProperty, hk, ← isMisplacedInContext_of_expected hE]
    cases form with
    | init => rfl
    | shorthand => rfl
    | method => exact absurd rfl hform
  | attribute_ hk hliteral hE =>
    rw [checkAttribute, hk]
    dsimp only
    rw [hliteral, isMisplacedInContext_of_expected hE]
    rfl
  | @argument callKind callee arguments index m s hv hm hs htakes =>
    have hcount : index < arguments.length := (List.getElem?_eq_some_iff.1 hv).1
    have hvoid : decide (index ∈ c.classifier.voidArguments (c.program.typeAt callee) callKind
        (some arguments.length)) = c.classifier.isVoidReturning E := by
      rw [Bool.eq_iff_iff, decide_eq_true_iff]
      exact Classifier.mem_voidArguments_of_takes hm hs htakes hcount
    rw [checkArgument, isMisplaced, hvoid]
  | @method object property name type m hk htype hm hE =>
    rw [checkProperty, hk]
    dsimp only
    rw [isMisplacedProperty, Key.name?, Option.any_some, isMisplacedMethod_eq, htype,
      Option.any_some, expectsVoidMethod_of_onlyMember hm hE, isMisplaced, Bool.and_comm]
  | @inherited declaration clause member _ _ name _ _ m hdeclaration hparts hk hv hm hE =>
    have hheritage : heritageTypes c [clause] = [c.program.typeAt clause] := rfl
    rw [checkInherited_eq hdeclaration hparts hk, hheritage, isMisplaced,
      Context.returnsResult_eq h, Context.returnsResult_eq h, hv,
      ← expectsVoidMethod_of_onlyMember hm hE, reportIf]
    cases c.classifier.isResultReturning (c.program.typeAt v) <;>
      cases hvoid : expectsVoidMethod c name (c.program.typeAt clause) <;> simp [hvoid]

/-- **The value is reported in all places or in none.**  It is reported if the type that is expected
returns nothing and its own type returns a Result.  For an argument this is asked of its position,
and the reports on a call are those on its arguments. -/
theorem positions_agree (h : c.program.types.WellFormed) :
    (∀ {E : TypeId} {v n : NodeId} {found : List Diagnostic} {kind : DiagnosticKind},
      Placed c E v found kind n →
      found = if c.classifier.isVoidReturning E &&
          c.classifier.isResultReturning (c.program.typeAt v)
        then [c.report info kind n] else []) ∧
    ∀ kind callee arguments, checkArguments c kind callee (some arguments) =
      arguments.zipIdx.flatMap fun x => checkArgument c kind callee arguments.length x.2 x.1 := by
  refine ⟨fun {E v n found kind} hp => ?_, checkArguments_eq_flatMap c⟩
  rw [hp.found_eq h, isMisplaced, Context.returnsResult_eq h, reportIf]

/-- `on(x, load)`, where all but the first argument should return nothing, and an interface with a
member `handle` below a parameter `P`, whose constraint has a `handle` that returns nothing. -/
def positionsProgram : Program :=
  ⟨⟨callbackTypes ++ #[
    .object { name := some "Listener", properties := [⟨"handle", ⟨11⟩⟩] },
    .parameter "P" (some ⟨16⟩),
    .object { callSignatures := [⟨[⟨"x", ⟨7⟩, false⟩, ⟨"rest", ⟨13⟩, true⟩], ⟨3⟩⟩] }]⟩, ⟨#[
    { kind := .identifier "on", type := some ⟨18⟩ },
    { kind := .identifier "x", type := some ⟨7⟩ },
    { kind := .identifier "load", type := some ⟨12⟩ },
    { kind := .call ⟨0⟩ [⟨1⟩, ⟨2⟩] false, type := some ⟨3⟩ },
    { kind := .expressionStatement ⟨3⟩ },
    { kind := .identifier "P", type := some ⟨17⟩ },
    { kind := .classMember (.name "handle") .signature none false, type := some ⟨12⟩ },
    { kind := .interfaceDeclaration "Handler" [⟨5⟩] [⟨6⟩] },
    { kind := .program [⟨4⟩, ⟨7⟩] }], ⟨8⟩⟩⟩

/-- Argument and member are both reported: by the elements of the rest parameter, and by the
property of the constraint. -/
theorem positions_agree_rest :
    positionsProgram.types.WellFormed ∧
    checkArgument ⟨positionsProgram, {}⟩ .call ⟨0⟩ 2 1 ⟨2⟩ =
      [Context.report ⟨positionsProgram, {}⟩ info .voidReturnArgument ⟨2⟩] ∧
    checkInherited ⟨positionsProgram, {}⟩ ⟨7⟩ ⟨6⟩ =
      [Context.report ⟨positionsProgram, {}⟩ info
        (.voidReturnInheritedMethod (positionsProgram.types.display ⟨17⟩)) ⟨6⟩] := by
  have hwf : positionsProgram.types.WellFormed := TypeTable.wellFormed_iff.2 ⟨rfl, rfl⟩
  have honly : ∀ {id m : TypeId}, positionsProgram.types.apparentMembers id = [m] →
      positionsProgram.types.OnlyMember id m := by
    intro id m h x
    rw [h, List.mem_singleton]
  have hexpected : (⟨positionsProgram.types, {}⟩ : Classifier).isVoidReturning ⟨11⟩ = true := by cbv
  have hresult : (⟨positionsProgram.types, {}⟩ : Classifier).isResultReturning ⟨12⟩ = true := by cbv
  have htakes : Signature.Takes positionsProgram.types
      ⟨[⟨"x", ⟨7⟩, false⟩] ++ [⟨"rest", ⟨13⟩, true⟩], ⟨3⟩⟩ 1 ⟨11⟩ :=
    .rest rfl (by simp) rfl (by decide) rfl
  have hargument : Placed ⟨positionsProgram, {}⟩ ⟨11⟩ ⟨2⟩
      (checkArgument ⟨positionsProgram, {}⟩ .call ⟨0⟩ [⟨1⟩, (⟨2⟩ : NodeId)].length 1 ⟨2⟩)
      .voidReturnArgument ⟨2⟩ :=
    .argument rfl (honly (m := ⟨18⟩) (by cbv)) rfl htakes
  have hparts : (NodeKind.interfaceDeclaration "Handler" [⟨5⟩] [⟨6⟩]).classLike? =
      some ([⟨5⟩], [⟨6⟩]) := rfl
  have hmember : Placed ⟨positionsProgram, {}⟩ ⟨11⟩ ⟨2⟩
      (checkInherited ⟨positionsProgram, {}⟩ ⟨7⟩ ⟨6⟩)
      (.voidReturnInheritedMethod (positionsProgram.types.display ⟨17⟩)) ⟨6⟩ :=
    .inherited rfl hparts rfl rfl (honly (m := ⟨16⟩) (by cbv)) rfl
  obtain ⟨hagree, _⟩ := positions_agree (c := ⟨positionsProgram, {}⟩) hwf
  refine ⟨hwf, (hagree hargument).trans ?_, (hagree hmember).trans ?_⟩
  · exact if_pos (Bool.and_eq_true_iff.2 ⟨hexpected, hresult⟩)
  · exact if_pos (Bool.and_eq_true_iff.2 ⟨hexpected, hresult⟩)

end Misuse

end ResultLint
