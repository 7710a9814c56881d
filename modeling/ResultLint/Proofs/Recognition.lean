import ResultLint.Proofs.Building
import ResultLint.Proofs.Interning
import ResultLint.Proofs.ResultTypes

/-!
# Result types that are built

The builder makes a Result type as a union of two objects, and the classifier finds Results by
walks through whatever table it is given.  Both know only the shape.  Its three names can be any,
so an object can have two properties of the same name and both objects can be one; and the table
can have entries that mention missing numbers.

* `TypeTable.Plain`: an entry that stands for nothing else, in any table.
* `TypeTable.IsResult`: the entries that the builder makes, said without the builder.
* `Classifier.isAlwaysResult_of_isResult`: **such entries are always Results.**
* `Call.extends_run`, `Session.extends_calls`: no call changes an entry.
* `resultType_recognized`: **a Result type that was built is always a Result.**
-/

namespace ResultLint

open Relation (ReflTransGen)

namespace TypeTable

variable {t u : TypeTable} {m x : TypeId}

/-! ## Entries that stand for nothing else -/

/-- An entry that is neither a union nor a parameter. -/
def Plain (t : TypeTable) (m : TypeId) : Prop :=
  ∃ ty, t.get? m = some ty ∧ ty.isUnion = false ∧ ty.isParameter = false

namespace Plain

theorem apparentType_eq (h : t.Plain m) : t.apparentType m = m := by
  obtain ⟨ty, hty, -, hp⟩ := h
  exact apparentType_of_not_parameter hty hp

theorem union?_eq_none (h : t.Plain m) : t.union? m = none := by
  obtain ⟨ty, hty, hu, -⟩ := h
  exact (union?_eq_none_iff hty).2 hu

theorem eq_of_members (h : t.Plain m) (hx : ReflTransGen t.Member m x) : x = m := by
  rcases hx.cases_head with heq | ⟨y, ⟨members, hm, -⟩, -⟩
  · exact heq.symm
  · obtain ⟨ty, hty, hu, -⟩ := h
    obtain rfl := Option.some.inj (hty.symm.trans hm)
    cases hu

theorem eq_of_resolves (h : t.Plain m) (hx : ReflTransGen t.Resolves m x) : x = m := by
  rcases hx.cases_head with heq | ⟨y, ⟨hne, -⟩, -⟩
  · exact heq.symm
  · exact absurd h.apparentType_eq hne

/-- A plain entry amounts to itself. -/
theorem mem_apparentMembers_iff (h : t.Plain m) : x ∈ t.apparentMembers m ↔ x = m := by
  rw [TypeTable.mem_apparentMembers_iff, h.apparentType_eq]
  constructor
  · rintro ⟨-, w, hw, hpath⟩
    obtain rfl := h.eq_of_members (mem_unionMembers_iff.1 hw).2
    exact h.eq_of_resolves hpath
  · rintro rfl
    exact ⟨h.apparentType_eq, x, mem_unionMembers_iff.2 ⟨h.union?_eq_none, .refl⟩, .refl⟩

end Plain

/-- **A union of plain entries amounts to them**, even if the table is not well-formed. -/
theorem mem_apparentMembers_union_of_plain {id : TypeId} {members : List TypeId}
    (hid : t.get? id = some (.union members)) (hplain : ∀ m ∈ members, t.Plain m) :
    x ∈ t.apparentMembers id ↔ x ∈ members := by
  rw [mem_apparentMembers_iff, apparentType_of_not_parameter hid rfl]
  constructor
  · rintro ⟨-, w, hw, hpath⟩
    obtain ⟨hleaf, hwalk⟩ := mem_unionMembers_iff.1 hw
    rcases hwalk.cases_head with rfl | ⟨m, ⟨_, hid', hm⟩, hwalk⟩
    · cases (union?_eq_none_iff hid).1 hleaf
    · obtain rfl := Ty.union.inj (Option.some.inj (hid.symm.trans hid'))
      obtain rfl := (hplain m hm).eq_of_members hwalk
      obtain rfl := (hplain w hm).eq_of_resolves hpath
      exact hm
  · intro hx
    have hxplain := hplain x hx
    exact ⟨hxplain.apparentType_eq, x,
      mem_unionMembers_iff.2 ⟨hxplain.union?_eq_none, .single ⟨members, hid, hx⟩⟩, .refl⟩

/-! ## What is built -/

/-- An object that says by its discriminant which case it is, with a payload under that name. -/
def IsCase (t : TypeTable) (shape : ResultShape) (marker : String) (payload m : TypeId) : Prop :=
  ∃ tag, t.get? tag = some (.literal (.string marker)) ∧
    t.get? m = some (.object { properties := [⟨shape.discriminant, tag⟩, ⟨marker, payload⟩] })

/-- The union of a success and a failure, in this order. -/
def IsResult (t : TypeTable) (shape : ResultShape) (success failure id : TypeId) : Prop :=
  ∃ ok err, t.IsCase shape shape.success success ok ∧ t.IsCase shape shape.failure failure err ∧
    t.get? id = some (.union [ok, err])

variable {shape : ResultShape} {marker : String} {payload success failure id : TypeId}

theorem IsCase.plain (h : t.IsCase shape marker payload m) : t.Plain m := by
  obtain ⟨tag, -, hm⟩ := h
  exact ⟨_, hm, rfl, rfl⟩

theorem IsCase.mono (h : t.IsCase shape marker payload m) (htu : t.Extends u) :
    u.IsCase shape marker payload m := by
  obtain ⟨tag, htag, hm⟩ := h
  exact ⟨tag, htu.entry htag, htu.entry hm⟩

theorem IsResult.mono (h : t.IsResult shape success failure id) (htu : t.Extends u) :
    u.IsResult shape success failure id := by
  obtain ⟨ok, err, hok, herr, hid⟩ := h
  exact ⟨ok, err, hok.mono htu, herr.mono htu, htu.entry hid⟩

end TypeTable

/-! ## Recognition -/

namespace Classifier

variable {c : Classifier} {marker : String} {payload success failure m id : TypeId}

/-- A case looks like a Result.  If the marker is the name of the discriminant, then the property of
that name is the discriminant, and that is enough. -/
theorem isResultLike_of_isCase (h : c.types.IsCase c.shape marker payload m)
    (hmarker : c.shape.isMarker marker = true) : c.isResultLike m = true := by
  obtain ⟨tag, htag, hm⟩ := h
  have hdiscriminant : c.types.property? m c.shape.discriminant = some tag :=
    TypeTable.property?_eq_some_iff.2
      ⟨_, hm, _, ⟨[], _, rfl, rfl, fun _ hq => absurd hq List.not_mem_nil⟩, rfl⟩
  have hmarkers : marker ∈ c.markers tag := by
    have hplain : c.types.Plain tag := ⟨_, htag, rfl, rfl⟩
    refine List.mem_filter.2 ⟨List.mem_filterMap.2 ⟨tag, ?_, ?_⟩, hmarker⟩
    · exact hplain.mem_apparentMembers_iff.2 rfl
    · exact TypeTable.stringLiteral?_eq_some_iff.2 htag
  rw [isResultLike, hdiscriminant]
  refine List.any_eq_true.2 ⟨marker, hmarkers, ?_⟩
  rw [TypeTable.property?, TypeTable.object?_eq_some_iff.2 hm, Option.bind_some,
    ObjectType.isSome_property?_iff]
  exact ⟨⟨marker, payload⟩, by simp, rfl⟩

/-- **A union of a success and a failure is always a Result**, in any table. -/
theorem isAlwaysResult_of_isResult (h : c.types.IsResult c.shape success failure id) :
    c.isAlwaysResult id = true := by
  obtain ⟨ok, err, hok, herr, hid⟩ := h
  have hmembers : ∀ {m}, m ∈ c.types.apparentMembers id ↔ m = ok ∨ m = err := by
    intro m
    rw [TypeTable.mem_apparentMembers_union_of_plain hid (by simp [hok.plain, herr.plain])]
    simp
  refine isAlwaysResult_iff.2 ⟨⟨ok, hmembers.2 (.inl rfl)⟩, fun m hm => ?_⟩
  rcases hmembers.1 hm with rfl | rfl
  · exact isResultLike_of_isCase hok (by simp [ResultShape.isMarker])
  · exact isResultLike_of_isCase herr (by simp [ResultShape.isMarker])

end Classifier

/-! ## Building -/

namespace Builder

/-- Afterwards the table has its entries still, and the given one under the number returned. -/
structure Gives (b : Builder) (step : TypeId × Builder) (ty : Ty) : Prop where
  kept : b.types.Extends step.2.types
  entry : step.2.types.get? step.1 = some ty

theorem gives_intern (b : Builder) (ty : Ty) : b.Gives (Build.type (·.intern ty) b) ty :=
  ⟨b.types.extends_intern ty, b.types.get?_intern ty⟩

theorem isCase_resultCase (b : Builder) (shape : ResultShape) (marker : String) (payload : TypeId) :
    b.types.Extends (Build.resultCase shape marker payload b).2.types ∧
      (Build.resultCase shape marker payload b).2.types.IsCase shape marker payload
        (Build.resultCase shape marker payload b).1 := by
  rw [Build.resultCase, Build.bind_run]
  have htag : b.Gives (Build.type (·.stringLiteral marker) b) (.literal (.string marker)) :=
    b.gives_intern (.literal (.string marker))
  generalize Build.type (·.stringLiteral marker) b = step at htag ⊢
  have hcase := step.2.gives_intern
    (.object { properties := [⟨shape.discriminant, step.1⟩, ⟨marker, payload⟩] })
  exact ⟨htag.kept.trans hcase.kept, step.1, hcase.kept.entry htag.entry, hcase.entry⟩

theorem isResult_resultType (b : Builder) (shape : ResultShape) (success failure : TypeId) :
    b.types.Extends (Build.resultType shape success failure b).2.types ∧
      (Build.resultType shape success failure b).2.types.IsResult shape success failure
        (Build.resultType shape success failure b).1 := by
  rw [Build.resultType, Build.bind_run, Build.bind_run]
  have hok := b.isCase_resultCase shape shape.success success
  generalize Build.resultCase shape shape.success success b = ok at hok ⊢
  have herr := ok.2.isCase_resultCase shape shape.failure failure
  generalize Build.resultCase shape shape.failure failure ok.2 = err at herr ⊢
  have hunion := err.2.gives_intern (.union [ok.1, err.1])
  exact ⟨(hok.1.trans herr.1).trans hunion.kept, ok.1, err.1,
    (hok.2.mono herr.1).mono hunion.kept, herr.2.mono hunion.kept, hunion.entry⟩

end Builder

/-- A call that makes a type keeps all entries, whatever is passed. -/
theorem Makes.extends_types {action : Build TypeId} {passed : List TypeId} (h : Makes action passed)
    (b : Builder) : b.types.Extends (action b).2.types := by
  have hrun : ∀ c : TypeCall, b.types.Extends (c.run b.types).2 :=
    fun c => b.types.extends_calls [c]
  cases h with
  | intern ty => exact hrun (.intern ty)
  | stringLiteral s => exact hrun (.stringLiteral s)
  | numberLiteral x => exact hrun (.numberLiteral x)
  | booleanLiteral v => exact hrun (.booleanLiteral v)
  | object o => exact hrun (.object o)
  | union => exact hrun (.union passed)
  | array element => exact hrun (.array element)
  | tuple => exact hrun (.tuple passed)
  | function params returnType => exact hrun (.function params returnType)
  | overloaded signatures => exact hrun (.overloaded signatures)
  | parameter name constraint => exact hrun (.parameter name constraint)
  | resultCase shape marker payload => exact (b.isCase_resultCase shape marker payload).1
  | resultType shape success failure => exact (b.isResult_resultType shape success failure).1

theorem Given.extends_settle (b : Builder) (given : Given) :
    b.types.Extends (given.settle b).2.types := by
  cases given with
  | ofLiteral l => exact b.types.extends_intern (.literal l)
  | _ => exact .refl _

/-- **No call changes an entry.** -/
theorem Call.extends_run (b : Builder) (c : Call) : b.types.Extends (c.run b).types := by
  cases c with
  | make action passed h => exact h.extends_types b
  | build action kind given h =>
    rw [Call.run, h.run_eq]
    exact given.extends_settle b
  | _ => exact .refl _

theorem Session.extends_calls (s : Session) (cs : List Call) :
    s.builder.types.Extends (s.calls cs).builder.types := by
  induction cs generalizing s with
  | nil => exact .refl _
  | cons c cs ih => exact (c.extends_run s.builder).trans (ih (s.call c))

/-- What a call has made stays as it is. -/
theorem Makes.extends_calls {action : Build TypeId} {passed : List TypeId} (h : Makes action passed)
    (s : Session) (later : List Call) : (action s.builder).2.types.Extends
      (s.calls (.make action passed h :: later)).builder.types :=
  (s.call (.make action passed h)).extends_calls later

/-- **A Result type that was built is always a Result**, and so sometimes one: by its own shape,
with any names and any payloads, whatever was called before and whatever is called later.  It is the
union of both cases, with the payloads that were passed, in the finished program too. -/
theorem resultType_recognized (shape : ResultShape) (success failure : TypeId)
    (before later : List Call) :
    let s := ({} : Session).calls before
    let id := (Build.resultType shape success failure s.builder).1
    let made := Call.make (Build.resultType shape success failure) [success, failure]
      (.resultType shape success failure)
    let b := (s.calls (made :: later)).builder
    let c : Classifier := ⟨b.types, shape⟩
    c.types.IsResult shape success failure id ∧
      c.isAlwaysResult id = true ∧ c.isSometimesResult id = true ∧
      ∀ body, (b.finish body).types = c.types := by
  intro s id made b c
  have hlater : (Build.resultType shape success failure s.builder).2.types.Extends c.types :=
    (Makes.resultType shape success failure).extends_calls s later
  have hresult : c.types.IsResult shape success failure id :=
    (s.builder.isResult_resultType shape success failure).2.mono hlater
  have halways : c.isAlwaysResult id = true := Classifier.isAlwaysResult_of_isResult hresult
  exact ⟨hresult, halways, Classifier.isSometimesResult_of_isAlwaysResult halways, fun _ => rfl⟩

end ResultLint
