import ResultLint.Document.Types
import ResultLint.Proofs.Document.Records
import ResultLint.Proofs.Validity

/-!
# Types in documents read back

A type is written with the fields of its form, and optional parts that are absent are not written.
Nothing is lost by that: what is left out is read as absent.

* `Ty.stores`: **what is written for a type stands for the type**, if the numbers in it have 32 bits.
-/

namespace ResultLint

open Json (Stores)
open Record (Parts)

variable {room : Nat}

/-- The number has the width of a number in a document. -/
def TypeId.Fits (id : TypeId) : Prop := id.index < Nat.pow 2 32

instance (id : TypeId) : Decidable id.Fits := inferInstanceAs (Decidable (id.index < Nat.pow 2 32))

/-! ## Literals and objects -/

theorem LiteralType.stores (room : Nat) (l : LiteralType) :
    Stores (room + 1) LiteralType.ofJson? l.toJson l := by
  cases l with
  | string s => exact ⟨.object (by simp [Json.Legible.string]), rfl⟩
  | number s => exact ⟨.object (by simp [Json.Legible.string]), rfl⟩
  | boolean b => exact ⟨.object (by simp [Json.Legible.string, Json.Legible.bool]), rfl⟩

theorem Parameter.stores (room : Nat) {p : Parameter} (h : p.type.Fits) :
    Stores (room + 1) Parameter.ofJson? p.toJson p :=
  Json.stores_object ["name", "ty", "rest"]
    (.cons (.required "name" (Json.stores_text room p.name))
      (.cons (.required "ty" (TypeId.stores room h))
        (.cons (.defaulted "rest" false (Json.stores_flag room p.rest)) (.nil p)))) (by simp)

theorem Property.stores (room : Nat) {p : Property} (h : p.type.Fits) :
    Stores (room + 1) Property.ofJson? p.toJson p :=
  Json.stores_object ["name", "ty"]
    (.cons (.required "name" (Json.stores_text room p.name))
      (.cons (.required "ty" (TypeId.stores room h)) (.nil p))) (by simp)

/-- All numbers in it have the width of numbers in a document. -/
structure Signature.Fits (s : Signature) : Prop where
  param : ∀ p ∈ s.params, p.type.Fits
  returnType : s.returnType.Fits

theorem Signature.stores (room : Nat) {s : Signature} (h : s.Fits) :
    Stores (room + 3) Signature.ofJson? s.toJson s :=
  Json.stores_object ["params", "returnType"]
    (.cons (.required "params" (Json.stores_list fun p hp => Parameter.stores room (h.param p hp)))
      (.cons (.required "returnType" (TypeId.stores _ h.returnType)) (.nil s))) (by simp)

@[inherit_doc Signature.Fits]
structure ObjectType.Fits (o : ObjectType) : Prop where
  property : ∀ p ∈ o.properties, p.type.Fits
  call : ∀ s ∈ o.callSignatures, s.Fits
  construct : ∀ s ∈ o.constructSignatures, s.Fits

/-- The parts of an object type, the absent ones left out. -/
def ObjectType.parts (o : ObjectType) : List (String × Option Json) :=
  [("name", o.name.map Json.string), ("properties", some (.ofList Property.toJson o.properties)),
    ("callSignatures",
      if o.callSignatures.isEmpty then none else some (.ofList Signature.toJson o.callSignatures)),
    ("constructSignatures",
      if o.constructSignatures.isEmpty then none
      else some (.ofList Signature.toJson o.constructSignatures))]

theorem ObjectType.written_parts (o : ObjectType) : Json.written o.parts = o.fields := by
  obtain ⟨name, properties, calls, constructs⟩ := o
  cases name <;> cases calls <;> cases constructs <;> rfl

theorem ObjectType.stores (room : Nat) {o : ObjectType} (h : o.Fits) :
    Stores (room + 5) ObjectType.ofJson? (.object o.fields) o := by
  rw [← o.written_parts]
  refine Json.stores_written ["name", "properties", "callSignatures", "constructSignatures"]
    ?_ (by simp [parts])
  exact .cons (.optionalField "name" rfl fun s _ => Json.stores_text _ s)
    (.cons (.defaulted "properties" []
        (Json.stores_list fun p hp => Property.stores (room + 2) (h.property p hp)))
      (.cons (.listField "callSignatures" fun s hs => Signature.stores room (h.call s hs))
        (.cons (.listField "constructSignatures" fun s hs =>
          Signature.stores room (h.construct s hs)) (.nil o))))

/-! ## Types -/

namespace Ty

@[inherit_doc Signature.Fits]
def Fits (ty : Ty) : Prop := ∀ r, ty.Mentions r → r.Fits

theorem forall_references_iff {ty : Ty} : (∀ r ∈ ty.references, r.Fits) ↔ ty.Fits := by
  simp only [Fits, mem_references_iff]

instance (ty : Ty) : Decidable ty.Fits := decidable_of_iff _ forall_references_iff

theorem Fits.object {o : ObjectType} (h : (object o).Fits) : o.Fits where
  property _ hp := h _ (.property hp)
  call _ hs := ⟨fun _ hp => h _ (.callParameter hs hp), h _ (.callReturn hs)⟩
  construct _ hs := ⟨fun _ hp => h _ (.constructParameter hs hp), h _ (.constructReturn hs)⟩

theorem stores_fields (room : Nat) {ty : Ty} (h : ty.Fits) :
    Stores (room + 5) (ofForm? ty.form) (.object ty.fields) ty := by
  cases ty with
  | primitive p =>
    have hname : Primitive.ofJson? (.string p.name) = some p := by cases p <;> rfl
    exact Json.stores_single "primitive" (Json.stores_name _ hname) primitive
  | literal l => exact Json.stores_single "literal" (LiteralType.stores (room + 3) l) literal
  | object o => exact (ObjectType.stores room h.object).map object
  | union members =>
    have hmembers := Json.stores_list fun r hr => TypeId.stores (room + 3) (h r (.member hr))
    exact Json.stores_single "members" hmembers union
  | array element =>
    exact Json.stores_single "element" (TypeId.stores _ (h element (.arrayElement element))) array
  | tuple elements =>
    have helements := Json.stores_list fun r hr => TypeId.stores (room + 3) (h r (.tupleElement hr))
    exact Json.stores_single "elements" helements tuple
  | parameter name constraint =>
    have hconstraint : ∀ r ∈ constraint, r.toJson.Stores (room + 4) TypeId.ofJson? r := by
      rintro r rfl
      exact TypeId.stores _ (h r (.constraint name r))
    have hwritten : Json.written [("name", some (.string name)),
        ("constraint", constraint.map TypeId.toJson)] = (parameter name constraint).fields := by
      cases constraint <;> rfl
    rw [← hwritten]
    exact Json.stores_written ["name", "constraint"]
      (.cons (.required "name" (Json.stores_text _ name))
        (.cons (.optionalField "constraint" rfl hconstraint) (.nil _))) (by simp)

/-- No form has a field that could be taken for the form. -/
theorem type_not_mem_fields (ty : Ty) : ∀ field ∈ ty.fields, field.1 ≠ "type" := by
  cases ty with
  | object o =>
    obtain ⟨name, properties, calls, constructs⟩ := o
    cases name <;> cases calls <;> cases constructs <;>
      simp [fields, ObjectType.fields, Json.optionalField, Signature.listField]
  | parameter name constraint => cases constraint <;> simp [fields, Json.optionalField]
  | _ => simp [fields]

/-- **What is written for a type stands for the type.** -/
theorem stores (room : Nat) {ty : Ty} (h : ty.Fits) :
    Stores (room + 5) Ty.ofJson? ty.toJson ty := by
  obtain ⟨hlegible, hread⟩ := stores_fields room h
  have hjson : ty.toJson.Legible (room + 5) := by
    cases hlegible with
    | object hfields =>
      refine .object fun field hfield => ?_
      rcases List.mem_cons.1 hfield with rfl | hfield
      · exact .string _ _
      · exact hfields field hfield
  refine ⟨hjson, ?_⟩
  have hothers : ty.fields.filter (·.1 ≠ "type") = ty.fields :=
    List.filter_eq_self.2 fun field hfield => decide_eq_true (ty.type_not_mem_fields field hfield)
  have hnone : ty.fields.filter (·.1 = "type") = [] :=
    List.filter_eq_nil_iff.2 fun field hfield => by simp [ty.type_not_mem_fields field hfield]
  have hform : (Json.values (("type", .string ty.form) :: ty.fields)).required "type" Json.text =
      some ty.form := by
    simp [Record.required, Json.values, hnone, Json.text]
  have hbody : (("type", .string ty.form) :: ty.fields).filter (·.1 ≠ "type") = ty.fields := by
    rw [List.filter_cons_of_neg (by simp), hothers]
  rw [toJson] at hjson ⊢
  rw [ofJson?, hjson.sound, hform, hbody]
  exact hread

end Ty

theorem TypeTable.stores (room : Nat) {t : TypeTable}
    (h : ∀ ty ∈ t.entries, ty.Fits) : Stores (room + 6) TypeTable.ofJson? t.toJson t := by
  have hlist := Json.stores_list fun ty hty =>
    Ty.stores room (h ty (Array.mem_toList_iff.1 hty))
  exact hlist.map fun types => (⟨types.toArray⟩ : TypeTable)

end ResultLint
