import Mathlib
import ResultLint.Proofs.Alike.Methods

/-!
# Generic types

A type parameter amounts to its constraint.  To generalize a program at a node is to put in place of
a type of the node a new parameter that is constrained to it.  Nearly everything that is found stays
the same, with two exceptions.

A computed key is known only if its own type is a string literal, so a generic key is not known and
its call is no longer the call of a predicate method.  And a parameter that leads back to itself is
met again on the way from a new parameter but not on its own, so that apparent members come in
another order; for a disputed method the order matters.

* `apparentMembers_push`: **a new parameter amounts to the same as its constraint, in the same
  order**, unless the constraint is a parameter that leads back to itself.
* `Valid.generalize`: the generalized program is valid.
* `findings_generalize`: **it has the same findings**, the exceptions apart.
* `generalize_changes_findings`: the exceptions are real.
-/

namespace ResultLint

open Relation (ReflTransGen TransGen)

/-! ## One more type -/

namespace TypeTable

variable {t : TypeTable} {ty : Ty} {id : TypeId}

/-- The other types stay as they are. -/
theorem alike_push (t : TypeTable) (ty : Ty) : t.Alike Eq (t.push ty) where
  entry := by
    intro id ty' hty'
    refine ⟨ty', ?_, .refl (fun _ => rfl) ty'⟩
    rw [get?_push_of_contains (contains_iff.2 ⟨ty', hty'⟩), hty']

/-- A parameter and its constraint amount to the same. -/
theorem WellFormed.interchangeable (h : t.WellFormed) {a b : TypeId} (hab : t.Constraint a b) :
    t.Interchangeable b a :=
  ⟨hab.apparentType_eq, fun _ => Classifier.mem_apparentMembers_constraint_iff h hab⟩

/-! ## Parameters that lead back to themselves -/

/-- A parameter that stands for itself, among others. -/
def LeadsBack (t : TypeTable) (id : TypeId) : Prop :=
  (∃ name constraint, t.get? id = some (.parameter name constraint)) ∧ TransGen t.StandsFor id id

/-- What is resolved on the way from a parameter is below it. -/
theorem WellFormed.transGen_of_mem_unionMembers (h : t.WellFormed) {part : TypeId}
    (hid : t.contains id = true) (hopen : t.apparentType id ≠ id)
    (hpart : part ∈ t.unionMembers (t.apparentType id)) (hagain : t.apparentType part ≠ part) :
    TransGen t.StandsFor id part := by
  rcases h.apparentType_cases hid with ⟨hpath, _⟩ | ⟨hunknown, _⟩
  · rcases Relation.reflTransGen_iff_eq_or_transGen.1 hpath with heq | hpath
    · exact absurd heq hopen
    · have hmembers : ReflTransGen t.StandsFor (t.apparentType id) part :=
        ReflTransGen.mono (fun _ _ => Or.inl) _ _ (mem_unionMembers_iff.1 hpart).2
      have hconstraints : TransGen t.StandsFor id (t.apparentType id) :=
        TransGen.mono (fun _ _ => Or.inr) _ _ hpath
      exact hconstraints.trans_left hmembers
  · rw [hunknown] at hpart
    rw [h.unionMembers_unknown hpart] at hagain
    exact absurd h.apparentType_unknown hagain

theorem exists_parameter_of_apparentType_ne (hid : t.contains id = true)
    (hopen : t.apparentType id ≠ id) :
    ∃ name constraint, t.get? id = some (.parameter name constraint) := by
  obtain ⟨ty, hty⟩ := contains_iff.1 hid
  cases ty with
  | parameter name constraint => exact ⟨name, constraint, hty⟩
  | _ => exact absurd (apparentType_of_not_parameter hty rfl) hopen

/-- **A new parameter amounts to the same as its constraint, in the same order**, unless the
constraint is a parameter that leads back to itself. -/
theorem WellFormed.apparentMembers_push (h : t.WellFormed) (hid : t.contains id = true)
    (hback : ¬ t.LeadsBack id) (name : String) :
    (t.push (.parameter name (some id))).apparentMembers ⟨t.size⟩ = t.apparentMembers id := by
  have halike := t.alike_push (.parameter name (some id))
  generalize hu : t.push (.parameter name (some id)) = u at halike ⊢
  have hnew : u.Constraint ⟨t.size⟩ id := ⟨name, by rw [← hu, get?_push_size]⟩
  have happarent : ∀ {m : TypeId}, t.contains m = true → u.apparentType m = t.apparentType m :=
    fun hm => halike.sameMembers_of_eq.apparentType_eq h hm
  have hmembers : ∀ {m : TypeId}, t.contains m = true →
      u.unionMembers (u.apparentType m) = t.unionMembers (t.apparentType m) := by
    intro m hm
    rw [happarent hm, halike.unionMembers_eq h (h.contains_apparentType m)]
  -- the walk from the new parameter may open `id`, which that from `id` may not
  have hfresh : ∀ {a m : TypeId}, t.contains m = true →
      (m ∈ Expansion.without (u.ids ++ u.listedMembers) a ↔ m ≠ a) := by
    intro a m hm
    rw [Expansion.mem_without, List.mem_append, mem_ids, Option.isSome_iff_exists, ← contains_iff]
    exact and_iff_right (Or.inl (halike.contains hm))
  rw [← halike.apparentMembers_eq h hid, apparentMembers_eq_expand, apparentMembers_eq_expand,
    hnew.apparentType_eq]
  apply Expansion.expand_congr (M := fun m => t.contains m = true ∧
    (t.apparentType m ≠ m → t.apparentType id ≠ id → TransGen t.StandsFor id m))
  · intro m hm ho part hpart
    have ho : u.apparentType m ≠ m := of_decide_eq_true ho
    change part ∈ u.unionMembers (u.apparentType m) at hpart
    rw [happarent hm.1] at ho
    rw [hmembers hm.1] at hpart
    refine ⟨h.contains_of_mem_unionMembers (h.contains_apparentType m) hpart, ?_⟩
    intro hagain hopen
    exact (hm.2 ho hopen).trans (h.transGen_of_mem_unionMembers hm.1 ho hpart hagain)
  · intro m _
    rfl
  · intro m _ _
    rfl
  · intro m hm
    rw [hmembers hid] at hm
    exact ⟨h.contains_of_mem_unionMembers (h.contains_apparentType id) hm,
      fun hagain hopen => h.transGen_of_mem_unionMembers hid hopen hm hagain⟩
  · intro m hm ho
    have ho : u.apparentType m ≠ m := of_decide_eq_true ho
    rw [happarent hm.1] at ho
    rw [hfresh hm.1, hfresh hm.1]
    refine iff_of_true (fun heq => ?_) (fun heq => ?_)
    · exact index_ne_size hm.1 (by rw [heq])
    · rw [heq] at hm ho
      exact hback ⟨exists_parameter_of_apparentType_ne hid ho, hm.2 ho ho⟩

end TypeTable

/-! ## Generalized programs -/

/-- The node with another type in that position. -/
def Node.setType (n : Node) (r : TypeId) : Position → Node
  | .own => { n with type := some r }
  | .context => { n with contextualType := some r }

theorem Node.kind_setType (n : Node) (r : TypeId) (position : Position) :
    (n.setType r position).kind = n.kind := by
  cases position <;> rfl

theorem Node.typeIn_setType (n : Node) (r : TypeId) (position other : Position) :
    (n.setType r position).typeIn other = if other = position then some r else n.typeIn other := by
  cases position <;> cases other <;> rfl

/-- The program in which a node has, in that position, a new parameter that is constrained to
`r`. -/
def Program.generalize (p : Program) (n : NodeId) (position : Position) (name : String)
    (r : TypeId) : Program :=
  ⟨p.types.push (.parameter name (some r)), p.tree.modify n (·.setType ⟨p.types.size⟩ position)⟩

namespace Program

variable {p : Program} {n : NodeId} {position : Position} {r : TypeId} (name : String)

theorem get?_generalize (id : NodeId) : (p.generalize n position name r).tree.get? id =
    if n = id then (p.tree.get? id).map (·.setType ⟨p.types.size⟩ position)
    else p.tree.get? id :=
  p.tree.get?_modify n _ id

theorem kind?_generalize (id : NodeId) :
    (p.generalize n position name r).tree.kind? id = p.tree.kind? id := by
  rw [Tree.kind?, Tree.kind?, get?_generalize]
  split
  · rw [Option.map_map]
    exact congrArg (Option.map · _) (funext fun node => node.kind_setType _ _)
  · rfl

theorem size_generalize : (p.generalize n position name r).tree.size = p.tree.size :=
  p.tree.size_modify n _

variable (hr : p.typeIn? position n = some r)

include hr

theorem typeIn?_generalize (other : Position) (id : NodeId) :
    (p.generalize n position name r).typeIn? other id =
      if other = position ∧ n = id then some ⟨p.types.size⟩ else p.typeIn? other id := by
  rw [typeIn?, typeIn?, get?_generalize]
  by_cases hid : n = id
  · subst hid
    obtain ⟨node, hn, _⟩ := Option.bind_eq_some_iff.1 hr
    simp only [hn, if_true, Option.map_some, Option.bind_some, Node.typeIn_setType, and_true]
  · simp only [hid, if_false, and_false]

/-- **The generalized program is valid.** -/
theorem Valid.generalize (h : p.Valid) : (p.generalize n position name r).Valid := by
  have hcontains : ∀ {id : TypeId}, p.types.contains id = true →
      (p.generalize n position name r).types.contains id = true :=
    fun hid => TypeTable.contains_push hid
  have hnew : (p.generalize n position name r).types.contains ⟨p.types.size⟩ = true :=
    TypeTable.contains_iff.2 ⟨_, TypeTable.get?_push_size⟩
  have htypes : ∀ (other : Position) {id : NodeId} {id' : TypeId},
      (p.generalize n position name r).typeIn? other id = some id' →
      (p.generalize n position name r).types.contains id' = true := by
    intro other id id' hid
    rw [typeIn?_generalize name hr] at hid
    split at hid
    · cases hid
      exact hnew
    · exact hcontains (h.contains_typeIn? hid)
  refine ⟨h.types.push ?_, ?_, ?_, ?_, ?_⟩
  · intro id hid
    cases hid
    exact h.contains_typeIn? hr
  · rw [size_generalize]
    exact h.root
  · intro id node m hn hm
    have hk : p.tree.kind? id = some node.kind := by
      rw [← kind?_generalize name, Tree.kind?, hn, Option.map_some]
    obtain ⟨node', hn', heq⟩ := Option.map_eq_some_iff.1 hk
    exact h.child hn' (heq ▸ hm)
  · intro id node id' hn ht
    exact htypes .own (Option.bind_eq_some_iff.2 ⟨node, hn, ht⟩)
  · intro id node id' hn ht
    exact htypes .context (Option.bind_eq_some_iff.2 ⟨node, hn, ht⟩)

/-- Whatever a node has in a position, it amounts to the same after it. -/
theorem interchangeable_generalize (h : p.Valid) (other : Position) (id : NodeId) :
    Option.Rel (p.generalize n position name r).types.Interchangeable (p.typeIn? other id)
      ((p.generalize n position name r).typeIn? other id) := by
  rw [typeIn?_generalize name hr]
  split
  next heq =>
    obtain ⟨rfl, rfl⟩ := heq
    rw [hr]
    exact .some ((h.generalize name hr).types.interchangeable ⟨name, TypeTable.get?_push_size⟩)
  next => exact rel_self (.refl _) _

variable (h : p.Valid) (shape : ResultShape)

include h

theorem alike_generalize :
    Classifier.Alike ⟨p.types, shape⟩ ⟨(p.generalize n position name r).types, shape⟩ :=
  ⟨(p.types.alike_push _).sameMembers_of_eq, rfl, h.types, (h.generalize name hr).types⟩

/-- **All questions about the types of nodes have the same answers.** -/
theorem agrees_generalize :
    Context.Agrees ⟨p, shape⟩ ⟨p.generalize n position name r, shape⟩ := by
  refine .of_alike (alike_generalize name hr h shape) h rfl (size_generalize name) (fun id => ?_)
    (fun id => ?_) (interchangeable_generalize name hr h .context)
  · show Option.Rel NodeKind.Alike (p.tree.kind? id)
      ((p.generalize n position name r).tree.kind? id)
    rw [kind?_generalize]
    exact rel_self .refl _
  · show TypeTable.Interchangeable _ (p.typeAt id) ((p.generalize n position name r).typeAt id)
    exact rel_getD (interchangeable_generalize name hr h .own id) (.refl _ _)

/-- A method is expected to be the same, unless it is disputed and `r` leads back to itself. -/
theorem expectsVoidMethod_generalize {method : String}
    (hmethod : ¬ (Context.Disputed ⟨p, shape⟩ method r ∧ p.types.LeadsBack r)) :
    Misuse.expectsVoidMethod ⟨p.generalize n position name r, shape⟩ method ⟨p.types.size⟩ =
      Misuse.expectsVoidMethod ⟨p, shape⟩ method r := by
  have halike := alike_generalize name hr h shape
  have hcontains : p.types.contains r = true := h.contains_typeIn? hr
  by_cases hback : p.types.LeadsBack r
  · have hdisputed : ¬ Context.Disputed ⟨p, shape⟩ method r := fun hd => hmethod ⟨hd, hback⟩
    refine Context.expectsVoidMethod_eq halike hcontains ?_ hdisputed
    exact (h.generalize name hr).types.interchangeable ⟨name, TypeTable.get?_push_size⟩
  · exact Context.expectsVoidMethod_congr halike (h.types.apparentMembers_push hcontains hback name)

theorem expectsVoidAt_generalize {method : String} {other : Position} {holder : NodeId}
    (hmethod : other = position → holder = n →
      ¬ (Context.Disputed ⟨p, shape⟩ method r ∧ p.types.LeadsBack r)) :
    Context.expectsVoidAt ⟨p.generalize n position name r, shape⟩ method other holder =
      Context.expectsVoidAt ⟨p, shape⟩ method other holder := by
  refine Context.expectsVoidAt_congr h.types (h.generalize name hr).types ?_
  change Option.Rel _ (p.typeIn? other holder)
    ((p.generalize n position name r).typeIn? other holder)
  rw [typeIn?_generalize name hr]
  split
  next heq =>
    obtain ⟨rfl, rfl⟩ := heq
    rw [hr]
    exact .some (expectsVoidMethod_generalize name hr h shape (hmethod rfl rfl))
  next =>
    cases hid : p.typeIn? other holder with
    | none => exact .none
    | some id =>
      have hcontains := h.contains_typeIn? hid
      exact .some (Context.expectsVoidMethod_congr (alike_generalize name hr h shape)
        ((p.types.alike_push _).apparentMembers_eq h.types hcontains))

/-- A computed key is a name of a predicate method alike, unless it is the node and `r` is such a
name. -/
theorem namesPredicate_generalize {key : Key}
    (hkey : position = .own → key = .computed n →
      (∀ value, p.tree.kind? n ≠ some (.literal (.string value))) →
      ∀ method ∈ Misuse.predicateMethods, p.types.get? r ≠ some (.literal (.string method))) :
    Misuse.namesPredicate ⟨p.generalize n position name r, shape⟩ key =
      Misuse.namesPredicate ⟨p, shape⟩ key := by
  refine (agrees_generalize name hr h shape).namesPredicate_eq fun m hm hnot => ?_
  show ((p.generalize n position name r).types.stringLiteral?
      (((p.generalize n position name r).typeIn? .own m).getD .unknown)).any _ =
    (p.types.stringLiteral? ((p.typeIn? .own m).getD .unknown)).any _
  rw [typeIn?_generalize name hr]
  split
  next heq =>
    obtain ⟨rfl, rfl⟩ := heq
    have hnew : (p.generalize n .own name r).types.get? ⟨p.types.size⟩ =
        some (.parameter name (some r)) := TypeTable.get?_push_size
    have hnone : (p.generalize n .own name r).types.stringLiteral? ⟨p.types.size⟩ = none := by
      rw [TypeTable.stringLiteral?, TypeTable.resolve_of_get? hnew]
    have hliteral : (p.types.stringLiteral? r).any (· ∈ Misuse.predicateMethods) = false := by
      rw [Bool.eq_false_iff]
      intro hany
      obtain ⟨method, hmethod, hmem⟩ := (Option.any_eq_true _ _).1 hany
      exact hkey rfl hm hnot method (of_decide_eq_true hmem)
        (TypeTable.stringLiteral?_eq_some_iff.1 hmethod)
    rw [hr, Option.getD_some, Option.getD_some, hnone, hliteral]
    rfl
  next =>
    have hcontains : p.types.contains ((p.typeIn? .own m).getD .unknown) = true :=
      h.contains_typeAt m
    rw [← (p.types.alike_push (.parameter name (some r))).stringLiteral?_eq hcontains]
    rfl

end Program

/-! ## Findings -/

/-- The finding is about the predicate in a call of a method that is named by the type of `key`. -/
inductive Tree.PredicateBy (t : Tree) (key : NodeId) : Finding → Prop
  | call {id callee argument object : NodeId} {rest : List NodeId} {isOptional isOptional' : Bool}
      (hid : t.Reaches t.root id)
      (hk : t.kind? id = some (.call callee (argument :: rest) isOptional))
      (hcallee : t.kind? (t.skipChain callee) = some (.member object (.computed key) isOptional'))
      (hkey : ∀ value, t.kind? key ≠ some (.literal (.string value))) :
      PredicateBy t key (Misuse.finding .predicate argument)

/-- The findings that can change when `n` has a parameter constrained to `r` in place of `r`. -/
inductive Program.Sensitive (p : Program) (shape : ResultShape) (n : NodeId) :
    Position → TypeId → Finding → Prop
  | predicate {r : TypeId} {method : String} {x : Finding} (hx : p.tree.PredicateBy n x)
      (hr : p.types.get? r = some (.literal (.string method)))
      (hmethod : method ∈ Misuse.predicateMethods) : Sensitive p shape n .own r x
  | method {position : Position} {r : TypeId} {name : String} {x : Finding}
      (hx : p.tree.MethodBy position n name x)
      (hdisputed : Context.Disputed ⟨p, shape⟩ name r) (hback : p.types.LeadsBack r) :
      Sensitive p shape n position r x

namespace Config

open Diagnostic (findings)

/-- **Generic types are found out alike.**  If in place of a type of a node there is a new parameter
that is constrained to it, the program is valid and has the same findings, apart from those that
are sensitive to it. -/
theorem findings_generalize {p : Program} (h : p.validate = .ok ()) {n : NodeId}
    {position : Position} {r : TypeId} (hr : p.typeIn? position n = some r) (name : String) :
    (p.generalize n position name r).validate = .ok () ∧
    ∀ (config : Config) (x : Finding), ¬ p.Sensitive config.shape n position r x →
      (x ∈ findings (config.lint (p.generalize n position name r)) ↔
        x ∈ findings (config.lint p)) := by
  have h : p.Valid := Program.validate_eq_ok_iff.1 h
  have hq := h.generalize name hr
  refine ⟨Program.validate_eq_ok_iff.2 hq, fun config => ?_⟩
  have hagrees := Program.agrees_generalize name hr h config.shape
  have hcompared : Context.ComparedAlong id
      (Diagnostic.SameBut (p.Sensitive config.shape n position r)) ⟨p, config.shape⟩
      ⟨p.generalize n position name r, config.shape⟩ := by
    refine hagrees.compared_findings ?_ ?_
    · intro id callee argument object rest key isOptional isOptional' hid hk hcallee hx
      refine Program.namesPredicate_generalize name hr h config.shape ?_
      rintro rfl rfl hnot method hmethod hliteral
      exact hx (.predicate (.call hid hk hcallee hnot) hliteral hmethod)
    · intro other holder method x hmethod hx
      refine Program.expectsVoidAt_generalize name hr h config.shape ?_
      rintro rfl rfl ⟨hdisputed, hback⟩
      exact hx (.method hmethod hdisputed hback)
  rw [findings_lint, findings_lint]
  exact hagrees.run_compared ((Diagnostic.comparison_sameBut _).along _) hcompared config

/-- `xs[k](f)`, where `k` has the type `"filter"` and `f` returns a Result. -/
def keyedProgram : Program :=
  ⟨⟨TypeTable.primitives.entries ++ #[
      .literal (.string "success"),
      .object { properties := [⟨"tag", ⟨9⟩⟩, ⟨"success", ⟨7⟩⟩] },
      .object { callSignatures := [⟨[], ⟨10⟩⟩] },
      .array ⟨7⟩,
      .literal (.string "filter")]⟩,
    ⟨#[
      { kind := .identifier "xs", type := some ⟨12⟩ },
      { kind := .identifier "k", type := some ⟨13⟩ },
      { kind := .member ⟨0⟩ (.computed ⟨1⟩) false },
      { kind := .identifier "f", type := some ⟨11⟩ },
      { kind := .call ⟨2⟩ [⟨3⟩] false },
      { kind := .expressionStatement ⟨4⟩ },
      { kind := .program [⟨5⟩] }], ⟨6⟩⟩⟩

theorem findings_keyedProgram :
    findings (Config.lint {} keyedProgram) = [Misuse.finding .predicate ⟨3⟩] := by
  cbv

/-- A generic function is reported as the function was. -/
theorem findings_generalize_predicate :
    keyedProgram.validate = .ok () ∧
    keyedProgram.typeIn? .own ⟨3⟩ = some ⟨11⟩ ∧
    (∀ x, ¬ keyedProgram.Sensitive {} ⟨3⟩ .own ⟨11⟩ x) ∧
    Misuse.finding .predicate ⟨3⟩ ∈
      findings (Config.lint {} (keyedProgram.generalize ⟨3⟩ .own "F" ⟨11⟩)) := by
  have hr : keyedProgram.typeIn? .own ⟨3⟩ = some ⟨11⟩ := rfl
  have hentry : keyedProgram.types.get? ⟨11⟩ =
      some (.object { callSignatures := [⟨[], ⟨10⟩⟩] }) := rfl
  have hsensitive : ∀ x, ¬ keyedProgram.Sensitive {} ⟨3⟩ .own ⟨11⟩ x := by
    intro x hx
    cases hx with
    | predicate _ hr _ =>
      rw [hentry] at hr
      cases hr
    | method _ _ hback =>
      obtain ⟨⟨name, constraint, hr⟩, _⟩ := hback
      rw [hentry] at hr
      cases hr
  refine ⟨rfl, hr, hsensitive, ?_⟩
  rw [(findings_generalize rfl hr "F").2 {} _ (hsensitive _), findings_keyedProgram]
  exact List.mem_singleton_self _

/-- An interface with a method `m` and the parent `T`.  The parameters `T` and `A` lead to each
other and to types that disagree on `m`. -/
def cyclicProgram : Program :=
  ⟨⟨TypeTable.primitives.entries ++ #[
      .literal (.string "success"),
      .object { properties := [⟨"tag", ⟨9⟩⟩, ⟨"success", ⟨7⟩⟩] },
      .object { callSignatures := [⟨[], ⟨3⟩⟩] },
      .object { callSignatures := [⟨[], ⟨10⟩⟩] },
      .object { properties := [⟨"m", ⟨11⟩⟩] },
      .object { properties := [⟨"m", ⟨7⟩⟩] },
      .parameter "T" (some ⟨17⟩),
      .parameter "A" (some ⟨18⟩),
      .union [⟨16⟩, ⟨13⟩],
      .union [⟨15⟩, ⟨14⟩]]⟩,
    ⟨#[
      { kind := .identifier "T", type := some ⟨15⟩ },
      { kind := .classMember (.name "m") .signature none false, type := some ⟨12⟩ },
      { kind := .interfaceDeclaration "C" [⟨0⟩] [⟨1⟩] },
      { kind := .program [⟨2⟩] }], ⟨3⟩⟩⟩

/-- A key that becomes generic is no longer known, and a parent that becomes generic can put the
types that it stands for in another order. -/
theorem generalize_changes_findings :
    (keyedProgram.validate = .ok () ∧ keyedProgram.typeIn? .own ⟨1⟩ = some ⟨13⟩ ∧
      findings (Config.lint {} keyedProgram) = [Misuse.finding .predicate ⟨3⟩] ∧
      findings (Config.lint {} (keyedProgram.generalize ⟨1⟩ .own "K" ⟨13⟩)) = []) ∧
    (cyclicProgram.validate = .ok () ∧ cyclicProgram.typeIn? .own ⟨0⟩ = some ⟨15⟩ ∧
      findings (Config.lint {} cyclicProgram) = [] ∧
      findings (Config.lint {} (cyclicProgram.generalize ⟨0⟩ .own "G" ⟨15⟩)) =
        [Misuse.finding (.voidReturnInheritedMethod "") ⟨1⟩]) :=
  ⟨⟨rfl, rfl, findings_keyedProgram, by cbv⟩, rfl, rfl, by cbv, by cbv⟩

end Config

end ResultLint
