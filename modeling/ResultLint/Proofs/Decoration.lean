import Mathlib
import ResultLint.Proofs.Alike.Methods

/-!
# What a report does not depend on

Names, operators, places and the marks that only say how something is written are **decoration**.
Programs that differ in decoration only are called alike; their reports are the same up to places
and quoted names.  A property is not decoration, since it is found by its name, and neither is a
string literal, which can be the name of a method.

* `Alike.agrees`: all questions about the types of nodes have the same answers.
* `Alike.compared`: so have the questions after names of methods and after inherited methods.
* `lint_decoration`: **the reports are the same, up to places and quoted names.**
-/

namespace ResultLint

open Diagnostic (outlines)

/-- The nodes have the same types, and kinds that differ in decoration only. -/
structure Node.Alike (n n' : Node) : Prop where
  kind : n.kind.Alike n'.kind
  type : n'.type = n.type
  contextualType : n'.contextualType = n.contextualType

/-- The programs differ in decoration only. -/
structure Program.Alike (p q : Program) : Prop where
  types : List.Forall₂ (Ty.Alike Eq) p.types.entries.toList q.types.entries.toList
  root : q.tree.root = p.tree.root
  nodes : List.Forall₂ Node.Alike p.tree.nodes.toList q.tree.nodes.toList

theorem Comparison.outlines : Comparison fun ds es => outlines es = outlines ds where
  of_outlines := id
  append := by
    intro ds es ds' es' h h'
    rw [Diagnostic.outlines, Diagnostic.outlines, List.map_append, List.map_append]
    exact congrArg₂ _ h h'

/-- An outline does not say which type expects something else of a method. -/
theorem outline_inherited (c d : Context) (member : NodeId) (name name' : String) :
    (d.report Misuse.info (.voidReturnInheritedMethod name') member).outline =
      (c.report Misuse.info (.voidReturnInheritedMethod name) member).outline :=
  rfl

namespace Program.Alike

variable {p q : Program} (h : p.Alike q)

include h

theorem table : p.types.Alike Eq q.types where
  entry := by
    intro id ty hty
    rcases getElem?_cases_of_forall₂ h.types id.index with ⟨hnone, _⟩ | ⟨_, ty', hp, hq, halike⟩
    · cases hty.symm.trans hnone
    · cases hty.symm.trans hp
      exact ⟨ty', hq, halike⟩

theorem size : q.tree.size = p.tree.size := by
  rw [Tree.size, Tree.size, ← Array.length_toList, ← Array.length_toList, h.nodes.length_eq]

theorem node_cases (id : NodeId) : (p.tree.get? id = none ∧ q.tree.get? id = none) ∨
    ∃ node node', p.tree.get? id = some node ∧ q.tree.get? id = some node' ∧ node.Alike node' :=
  getElem?_cases_of_forall₂ h.nodes id.index

theorem typeAt_eq (id : NodeId) : q.typeAt id = p.typeAt id := by
  rw [typeAt, typeAt]
  rcases h.node_cases id with ⟨hp, hq⟩ | ⟨node, node', hp, hq, halike⟩
  · rw [hp, hq]
  · rw [hp, hq, Option.bind_some, Option.bind_some, halike.type]

theorem contextualType?_eq (id : NodeId) : q.contextualType? id = p.contextualType? id := by
  rw [contextualType?, contextualType?]
  rcases h.node_cases id with ⟨hp, hq⟩ | ⟨node, node', hp, hq, halike⟩
  · rw [hp, hq]
  · rw [hp, hq, Option.bind_some, Option.bind_some, halike.contextualType]

theorem kind_rel (id : NodeId) :
    Option.Rel NodeKind.Alike (p.tree.kind? id) (q.tree.kind? id) := by
  rw [Tree.kind?, Tree.kind?]
  rcases h.node_cases id with ⟨hp, hq⟩ | ⟨node, node', hp, hq, halike⟩
  · rw [hp, hq]
    exact .none
  · rw [hp, hq]
    exact .some halike.kind

variable (hp : p.Valid) (hq : q.Valid) (shape : ResultShape)

include hp hq

theorem classifier : Classifier.Alike ⟨p.types, shape⟩ ⟨q.types, shape⟩ :=
  ⟨h.table.sameMembers_of_eq, rfl, hp.types, hq.types⟩

/-- **All questions about the types of nodes have the same answers.** -/
theorem agrees : Context.Agrees ⟨p, shape⟩ ⟨q, shape⟩ := by
  refine .of_alike (h.classifier hp hq shape) hp h.root h.size h.kind_rel (fun n => ?_) fun n => ?_
  · show q.types.Interchangeable (p.typeAt n) (q.typeAt n)
    rw [h.typeAt_eq]
    exact .refl _ _
  · show Option.Rel q.types.Interchangeable (p.contextualType? n) (q.contextualType? n)
    rw [h.contextualType?_eq]
    exact rel_self (.refl _) _

theorem expectsVoidMethod_eq (name : String) {r : TypeId} (hr : p.types.contains r = true) :
    Misuse.expectsVoidMethod ⟨q, shape⟩ name r = Misuse.expectsVoidMethod ⟨p, shape⟩ name r :=
  Context.expectsVoidMethod_congr (h.classifier hp hq shape)
    (h.table.apparentMembers_eq hp.types hr)

theorem outlines_inherited {id member : NodeId} {kind : NodeKind} {heritage members : List NodeId}
    (hk : (Context.tree ⟨p, shape⟩).kind? id = some kind)
    (hc : kind.classLike? = some (heritage, members)) :
    outlines (Misuse.checkInherited ⟨q, shape⟩ id member) =
      outlines (Misuse.checkInherited ⟨p, shape⟩ id member) := by
  have hagrees : Context.Agrees ⟨p, shape⟩ ⟨q, shape⟩ := h.agrees hp hq shape
  have htypes :
      Misuse.heritageTypes ⟨q, shape⟩ heritage = Misuse.heritageTypes ⟨p, shape⟩ heritage := by
    rw [Misuse.heritageTypes, Misuse.heritageTypes]
    exact congrArg (List.foldl _ []) (List.map_congr_left fun n _ => h.typeAt_eq n)
  rcases hagrees.method_cases id member with ⟨hnone, hnone'⟩ |
    ⟨name, form, form', value, hmember, hmember'⟩
  · rw [hnone, hnone']
  · obtain ⟨kind', hk', hc'⟩ := hagrees.exists_classLike? hk hc
    have hreturns : Context.returnsResult ⟨q, shape⟩ member =
        Context.returnsResult ⟨p, shape⟩ member := hagrees.returnsResult member
    have hfilter : (Misuse.heritageTypes ⟨p, shape⟩ heritage).filter
          (Misuse.expectsVoidMethod ⟨q, shape⟩ name) =
        (Misuse.heritageTypes ⟨p, shape⟩ heritage).filter
          (Misuse.expectsVoidMethod ⟨p, shape⟩ name) := by
      refine List.filter_congr fun r hr => ?_
      obtain ⟨clause, _, rfl⟩ := Misuse.mem_heritageTypes_iff.1 hr
      exact h.expectsVoidMethod_eq hp hq shape name (hp.contains_typeAt clause)
    rw [Misuse.checkInherited_eq hk hc hmember, Misuse.checkInherited_eq hk' hc' hmember',
      hreturns, htypes, hfilter]
    split
    · rw [outlines, outlines, List.map_map, List.map_map]
      exact List.map_congr_left fun parent _ => outline_inherited _ _ member _ _
    · rfl

/-- **The checks that ask for names and for inherited methods find the same.** -/
theorem compared : Context.ComparedAlong id (fun ds es => outlines es = outlines ds) ⟨p, shape⟩
    ⟨q, shape⟩ where
  predicate := by
    intro id callee arguments isOptional _ _
    rw [List.map_id]
    have hagrees := h.agrees hp hq shape
    refine hagrees.outlines_predicate (fun _ => hagrees.namesPredicate_eq ?_) _
    intro n _ _
    show (q.types.stringLiteral? (q.typeAt n)).any _ = (p.types.stringLiteral? (p.typeAt n)).any _
    rw [h.typeAt_eq, h.table.stringLiteral?_eq (hp.contains_typeAt n)]
  property := by
    intro id property properties _ _ _
    refine (h.agrees hp hq shape).outlines_property fun {name} _ _ => ?_
    show (q.contextualType? id).any _ = (p.contextualType? id).any _
    rw [h.contextualType?_eq]
    cases hr : p.contextualType? id with
    | none => rfl
    | some r => exact h.expectsVoidMethod_eq hp hq shape name (hp.contains_contextualType? hr)
  inherited _ hk hc _ := h.outlines_inherited hp hq shape hk hc

end Program.Alike

namespace Config

theorem outlines_lint (config : Config) (p : Program) : outlines (config.lint p) =
    (outlines (Rule.run config.activeRules ⟨p, config.shape⟩)).map config.applySeverity := by
  rw [lint, outlines, outlines, List.map_map, List.map_map]
  rfl

/-- **Linting goes by structure.**  Programs that differ in decoration only have the same report up
to places and quoted names: diagnostic by diagnostic the same rule, code, kind, node, severity and
notes. -/
theorem lint_decoration {p q : Program} (hp : p.validate = .ok ()) (hq : q.validate = .ok ())
    (h : p.Alike q) (config : Config) :
    outlines (config.lint q) = outlines (config.lint p) ∧
    (config.lint q).map (fun d => (d.rule, d.code, d.kind.id, d.node, d.severity, d.notes)) =
      (config.lint p).map fun d => (d.rule, d.code, d.kind.id, d.node, d.severity, d.notes) := by
  have hp : p.Valid := Program.validate_eq_ok_iff.1 hp
  have hq : q.Valid := Program.validate_eq_ok_iff.1 hq
  have houtlines : outlines (config.lint q) = outlines (config.lint p) := by
    have hrun := (h.agrees hp hq config.shape).run_compared (Comparison.outlines.along _)
      (h.compared hp hq config.shape) config
    rw [outlines_lint, outlines_lint, hrun]
  have hfields : ∀ ds : List Diagnostic,
      ds.map (fun d => (d.rule, d.code, d.kind.id, d.node, d.severity, d.notes)) =
        (outlines ds).map fun d => (d.rule, d.code, d.kind.id, d.node, d.severity, d.notes) := by
    intro ds
    rw [outlines, List.map_map]
    refine List.map_congr_left fun d _ => ?_
    rw [Function.comp_apply, Diagnostic.outline, d.kind.id_anonymous]
  exact ⟨houtlines, by rw [hfields, houtlines, ← hfields]⟩

/-- A class `C` with a parent that expects `m` to return nothing, `r; r[v](v);` and a function,
under other names and marks for other arguments. -/
def decoratedProgram (name : String) (form : FunctionForm) (isOptional : Bool)
    (value : LiteralValue) (span : Span) : Program :=
  ⟨⟨TypeTable.primitives.entries ++ #[
      .literal (.string "success"),
      .object { properties := [⟨"tag", ⟨9⟩⟩, ⟨"success", ⟨7⟩⟩] },
      .object { callSignatures := [⟨[⟨name, ⟨7⟩, false⟩], ⟨3⟩⟩] },
      .object { callSignatures := [⟨[], ⟨10⟩⟩] },
      .object { name := some name, properties := [⟨"m", ⟨11⟩⟩] },
      .parameter name (some ⟨10⟩)]⟩,
    ⟨#[
      { kind := .identifier name, span, type := some ⟨13⟩ },
      { kind := .classMember (.name "m") .method none false, span, type := some ⟨12⟩ },
      { kind := .classDeclaration name [⟨0⟩] [⟨1⟩] },
      { kind := .identifier name, span, type := some ⟨14⟩ },
      { kind := .expressionStatement ⟨3⟩ },
      { kind := .literal value, span },
      { kind := .member ⟨3⟩ (.computed ⟨5⟩) isOptional },
      { kind := .call ⟨6⟩ [⟨5⟩] isOptional },
      { kind := .expressionStatement ⟨7⟩ },
      { kind := .block [] },
      { kind := .function form (some name) [] ⟨9⟩ },
      { kind := .program [⟨2⟩, ⟨4⟩, ⟨8⟩, ⟨10⟩] }], ⟨11⟩⟩⟩

theorem decoratedProgram_alike {name name' : String} {form form' : FunctionForm}
    {isOptional isOptional' : Bool} {value value' : LiteralValue} {span span' : Span}
    (hv : value.isString = false) (hv' : value'.isString = false) :
    (decoratedProgram name form isOptional value span).Alike
      (decoratedProgram name' form' isOptional' value' span') := by
  have hrefl : ∀ ty : Ty, ty.Alike Eq ty := Ty.Alike.refl fun _ => rfl
  have hsignature : Signature.Alike ⟨[⟨name, ⟨7⟩, false⟩], ⟨3⟩⟩ ⟨[⟨name', ⟨7⟩, false⟩], ⟨3⟩⟩ :=
    ⟨rfl, rfl⟩
  have hsame : ∀ (kind : NodeKind) (type : Option TypeId) (span span' : Span),
      Node.Alike { kind, span, type } { kind, span := span', type } :=
    fun kind type span span' => ⟨.refl kind, rfl, rfl⟩
  refine ⟨?_, rfl, ?_⟩
  · rw [decoratedProgram, decoratedProgram, Array.toList_append, Array.toList_append]
    refine List.rel_append (List.forall₂_same.2 fun ty _ => hrefl ty) ?_
    exact .cons (hrefl _) (.cons (hrefl _) (.cons (.object rfl (.cons hsignature .nil) .nil)
      (.cons (hrefl _) (.cons (.object rfl .nil .nil) (.cons (.parameter name name' _) .nil)))))
  · exact .cons ⟨.identifier name name', rfl, rfl⟩ (.cons (hsame _ _ _ _)
      (.cons ⟨.classDeclaration name name' _ _, rfl, rfl⟩
      (.cons ⟨.identifier name name', rfl, rfl⟩ (.cons (hsame _ _ _ _)
      (.cons ⟨.literal hv hv', rfl, rfl⟩ (.cons ⟨.member _ _ isOptional isOptional', rfl, rfl⟩
      (.cons ⟨.call _ _ isOptional isOptional', rfl, rfl⟩ (.cons (hsame _ _ _ _)
      (.cons (hsame _ _ _ _) (.cons ⟨.function form form' _ _ _ _, rfl, rfl⟩
      (.cons (hsame _ _ _ _) .nil)))))))))))

/-- The reports name the parent differently and are otherwise the same. -/
theorem lint_decoration_renamed :
    (decoratedProgram "P" .declaration false .null {}).validate = .ok () ∧
    (decoratedProgram "Q" .arrow true (.boolean true) ⟨1, 2, 3, 4⟩).validate = .ok () ∧
    ((Config.lint {} (decoratedProgram "P" .declaration false .null {})).map (·.kind) =
      [.voidReturnInheritedMethod "P", .floating]) ∧
    ((Config.lint {} (decoratedProgram "Q" .arrow true (.boolean true) ⟨1, 2, 3, 4⟩)).map (·.kind) =
      [.voidReturnInheritedMethod "Q", .floating]) ∧
    ∀ config : Config,
      outlines (config.lint (decoratedProgram "Q" .arrow true (.boolean true) ⟨1, 2, 3, 4⟩)) =
        outlines (config.lint (decoratedProgram "P" .declaration false .null {})) :=
  ⟨rfl, rfl, by cbv, by cbv,
    fun config => (lint_decoration rfl rfl (decoratedProgram_alike rfl rfl) config).1⟩

end Config

end ResultLint
