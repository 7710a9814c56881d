import Mathlib.Data.List.Basic
import ResultLint.Analysis.Callable
import ResultLint.Proofs.Validity

/-!
# Other names for properties

The classifier knows no name but the three of its shape.  If all names of properties and all string
literals are **renamed** along with the shape, so that different names stay different, every type is
judged as before.  Names that coincide stay the same name: a property that is listed twice, a marker
that is a discriminant as well, two equal markers.

* `TypeTable.apparentMembers_rename`: no walk depends on names.
* `ObjectType.property?_rename`: the first property of a name is the first one of its new name.
* `Classifier.markers_rename`, `Classifier.isResultLike_rename`: markers are found under their new
  names.
* `Classifier.answers_rename`: **the classifier answers as before.**
-/

namespace ResultLint

/-! ## Types -/

def LiteralType.rename (f : String → String) : LiteralType → LiteralType
  | string s => .string (f s)
  | number text => .number text
  | boolean b => .boolean b

def Property.rename (f : String → String) (p : Property) : Property := { p with name := f p.name }

def ObjectType.rename (f : String → String) (o : ObjectType) : ObjectType :=
  { o with properties := o.properties.map (·.rename f) }

/-- The type with other names for properties and other string literals.  What a type or a parameter
is called is not the name of a property. -/
def Ty.rename (f : String → String) : Ty → Ty
  | literal l => .literal (l.rename f)
  | object o => .object (o.rename f)
  | ty => ty

def TypeTable.rename (f : String → String) (t : TypeTable) : TypeTable :=
  ⟨t.entries.map (·.rename f)⟩

def ResultShape.rename (f : String → String) (shape : ResultShape) : ResultShape where
  discriminant := f shape.discriminant
  success := f shape.success
  failure := f shape.failure

def Classifier.rename (f : String → String) (c : Classifier) : Classifier :=
  ⟨c.types.rename f, c.shape.rename f⟩

variable (f : String → String)

theorem Ty.references_rename (ty : Ty) : (ty.rename f).references = ty.references := by
  cases ty with
  | object o =>
    show (o.properties.map (·.rename f)).map (·.type) ++ _ = o.properties.map (·.type) ++ _
    rw [List.map_map]
    rfl
  | _ => rfl

theorem Ty.mentions_rename_iff {ty : Ty} {r : TypeId} :
    (ty.rename f).Mentions r ↔ ty.Mentions r := by
  rw [← mem_references_iff, ← mem_references_iff, references_rename]

theorem Ty.rename_eq_primitive_iff {ty : Ty} {p : Primitive} :
    ty.rename f = .primitive p ↔ ty = .primitive p := by
  cases ty <;> simp [rename]

variable {f} in
/-- **The first property of a name is the first one of its new name**, since no other name becomes
the same. -/
theorem ObjectType.property?_rename (hf : Function.Injective f) (o : ObjectType) (name : String) :
    (o.rename f).property? (f name) = o.property? name := by
  have hsame : ((fun p : Property => decide (p.name = f name)) ∘ Property.rename f) =
      fun p => decide (p.name = name) := by
    funext p
    exact decide_eq_decide.2 hf.eq_iff
  rw [property?, property?, rename, List.find?_map, hsame, Option.map_map]
  rfl

variable {f} in
theorem ResultShape.isMarker_rename (hf : Function.Injective f) (shape : ResultShape) (s : String) :
    (shape.rename f).isMarker (f s) = shape.isMarker s := by
  simp only [isMarker, rename, hf.eq_iff]

/-! ## Tables -/

namespace TypeTable

variable (t : TypeTable) (id : TypeId)

theorem get?_rename : (t.rename f).get? id = (t.get? id).map (·.rename f) := Array.getElem?_map

theorem size_rename : (t.rename f).size = t.size := Array.size_map

theorem contains_rename : (t.rename f).contains id = t.contains id := by
  rw [contains, contains, size_rename]

theorem resolve_rename : (t.rename f).resolve id = (t.resolve id).rename f := by
  rw [resolve, resolve, get?_rename]
  cases t.get? id <;> rfl

theorem wellFormed_rename_iff : (t.rename f).WellFormed ↔ t.WellFormed := by
  have hprimitive : ∀ p : Primitive, (t.rename f).get? p.id = some (.primitive p) ↔
      t.get? p.id = some (.primitive p) := by
    intro p
    rw [get?_rename]
    cases t.get? p.id with
    | none => exact Iff.rfl
    | some ty => simp only [Option.map_some, Option.some.injEq, Ty.rename_eq_primitive_iff]
  constructor
  · intro h
    refine ⟨fun p => (hprimitive p).1 (h.primitive p), fun {id ty r} hty hr => ?_⟩
    have hty' : (t.rename f).get? id = some (ty.rename f) := by
      rw [get?_rename, hty, Option.map_some]
    rw [← contains_rename f]
    exact h.mentioned hty' ((Ty.mentions_rename_iff f).2 hr)
  · intro h
    refine ⟨fun p => (hprimitive p).2 (h.primitive p), fun {id ty r} hty hr => ?_⟩
    rw [get?_rename] at hty
    obtain ⟨old, hold, rfl⟩ := Option.map_eq_some_iff.1 hty
    rw [contains_rename]
    exact h.mentioned hold ((Ty.mentions_rename_iff f).1 hr)

/-! ### Walks -/

theorem followConstraints_rename (steps : Nat) :
    (t.rename f).followConstraints steps id = t.followConstraints steps id := by
  induction steps generalizing id with
  | zero =>
    rw [followConstraints, followConstraints, get?_rename]
    cases t.get? id with
    | none => rfl
    | some ty =>
      cases ty with
      | parameter name constraint => cases constraint <;> rfl
      | _ => rfl
  | succ steps ih =>
    rw [followConstraints, followConstraints, get?_rename]
    cases t.get? id with
    | none => rfl
    | some ty =>
      cases ty with
      | parameter name constraint =>
        cases constraint with
        | none => rfl
        | some constraint => exact ih constraint
      | _ => rfl

theorem apparentType_rename : (t.rename f).apparentType id = t.apparentType id := by
  rw [apparentType, apparentType, size_rename, followConstraints_rename]

theorem union?_rename : (t.rename f).union? id = t.union? id := by
  rw [union?, union?, get?_rename]
  cases t.get? id with
  | none => rfl
  | some ty => cases ty <;> rfl

theorem unions_rename : (t.rename f).unions = t.unions := by
  simp only [unions, union?_rename]

theorem unionMembers_rename : (t.rename f).unionMembers id = t.unionMembers id := by
  rw [unionMembers, unionMembers, unions_rename, size_rename]

theorem generics_rename : (t.rename f).generics = t.generics := by
  simp only [generics, apparentType_rename, unionMembers_rename]

theorem listedMembers_rename : (t.rename f).listedMembers = t.listedMembers := by
  rw [listedMembers, listedMembers, rename, Array.toList_map, List.flatMap_map]
  refine List.flatMap_congr fun ty _ => ?_
  cases ty <;> rfl

/-- **A type amounts to the same under other names.** -/
theorem apparentMembers_rename : (t.rename f).apparentMembers id = t.apparentMembers id := by
  rw [apparentMembers, apparentMembers, apparentType_rename, unionMembers_rename, generics_rename,
    size_rename, listedMembers_rename]

/-! ### One entry -/

theorem object?_rename : (t.rename f).object? id = (t.object? id).map (·.rename f) := by
  rw [object?, object?, resolve_rename]
  cases t.resolve id <;> rfl

theorem stringLiteral?_rename : (t.rename f).stringLiteral? id = (t.stringLiteral? id).map f := by
  rw [stringLiteral?, stringLiteral?, resolve_rename]
  cases t.resolve id with
  | literal l => cases l <;> rfl
  | _ => rfl

theorem isVoid_rename : (t.rename f).isVoid id = t.isVoid id := by
  rw [isVoid, isVoid, resolve_rename]
  exact decide_eq_decide.2 (Ty.rename_eq_primitive_iff f)

theorem elementTypes_rename : (t.rename f).elementTypes id = t.elementTypes id := by
  rw [elementTypes, elementTypes, resolve_rename]
  cases t.resolve id <;> rfl

theorem signatures_rename (kind : CallKind) :
    (t.rename f).signatures kind id = t.signatures kind id := by
  cases kind with
  | call =>
    rw [signatures, signatures, callSignatures, callSignatures, object?_rename]
    cases t.object? id <;> rfl
  | construct =>
    rw [signatures, signatures, constructSignatures, constructSignatures, object?_rename]
    cases t.object? id <;> rfl

theorem apparentSignatures_rename (kind : CallKind) :
    (t.rename f).apparentSignatures kind id = t.apparentSignatures kind id := by
  rw [apparentSignatures, apparentSignatures, apparentMembers_rename]
  exact List.flatMap_congr fun m _ => t.signatures_rename f m kind

theorem restType?_rename (i : Nat) : (t.rename f).restType? id i = t.restType? id i := by
  rw [restType?, restType?, apparentType_rename, resolve_rename]
  cases t.resolve (t.apparentType id) <;> rfl

theorem signatureOffers_rename (count position : Nat) (s : Signature) :
    (t.rename f).signatureOffers count position s = t.signatureOffers count position s := by
  simp only [signatureOffers, parameterOffer?, restType?_rename]

variable {f} in
theorem property?_rename (hf : Function.Injective f) (name : String) :
    (t.rename f).property? id (f name) = t.property? id name := by
  rw [property?, property?, object?_rename]
  cases t.object? id with
  | none => rfl
  | some o => exact o.property?_rename hf name

end TypeTable

/-! ## Verdicts -/

namespace Classifier

section

variable {f} (hf : Function.Injective f) (c : Classifier) (id : TypeId)

include hf

/-- **The markers that a type can hold are found under their new names.** -/
theorem markers_rename : (c.rename f).markers id = (c.markers id).map f := by
  have hliterals : (c.types.apparentMembers id).filterMap (c.types.rename f).stringLiteral? =
      ((c.types.apparentMembers id).filterMap c.types.stringLiteral?).map f := by
    rw [List.map_filterMap]
    exact List.filterMap_congr fun m _ => c.types.stringLiteral?_rename f m
  have hmarkers : (c.shape.rename f).isMarker ∘ f = c.shape.isMarker :=
    funext (c.shape.isMarker_rename hf)
  rw [markers, markers, rename, TypeTable.apparentMembers_rename, hliterals, List.filter_map,
    hmarkers]

theorem isResultLike_rename : (c.rename f).isResultLike id = c.isResultLike id := by
  have hproperty : ∀ name, (c.rename f).types.property? id (f name) = c.types.property? id name :=
    c.types.property?_rename id hf
  rw [isResultLike, isResultLike, show (c.rename f).shape.discriminant = f c.shape.discriminant
    from rfl, hproperty]
  cases c.types.property? id c.shape.discriminant with
  | none => rfl
  | some tag => simp only [markers_rename hf, List.any_map, Function.comp_def, hproperty]

theorem isSometimesResult_rename : (c.rename f).isSometimesResult id = c.isSometimesResult id := by
  rw [isSometimesResult, isSometimesResult, funext (isResultLike_rename hf c)]
  exact congrArg (List.any · _) (c.types.apparentMembers_rename f id)

theorem isAlwaysResult_rename : (c.rename f).isAlwaysResult id = c.isAlwaysResult id := by
  rw [isAlwaysResult, isAlwaysResult, funext (isResultLike_rename hf c)]
  exact congrArg (fun members : List TypeId => !members.isEmpty && members.all c.isResultLike)
    (c.types.apparentMembers_rename f id)

theorem isResultArrayOrTuple_rename :
    (c.rename f).isResultArrayOrTuple id = c.isResultArrayOrTuple id := by
  rw [isResultArrayOrTuple, isResultArrayOrTuple, funext (isSometimesResult_rename hf c), rename]
  simp only [TypeTable.apparentMembers_rename, TypeTable.elementTypes_rename]

theorem isResultReturning_rename : (c.rename f).isResultReturning id = c.isResultReturning id := by
  rw [isResultReturning, isResultReturning, funext (isSometimesResult_rename hf c)]
  exact congrArg (List.any · _) (c.types.apparentSignatures_rename f id .call)

theorem isVoidReturning_rename : (c.rename f).isVoidReturning id = c.isVoidReturning id := by
  have hsignatures : (c.rename f).callSignatures id = c.callSignatures id :=
    c.types.apparentSignatures_rename f id .call
  have hvoid : (c.rename f).types.isVoid = c.types.isVoid := funext (c.types.isVoid_rename f)
  rw [isVoidReturning, isVoidReturning, hsignatures, hvoid, funext (isSometimesResult_rename hf c)]

theorem expectsVoid_rename (types : List TypeId) :
    (c.rename f).expectsVoid types = c.expectsVoid types := by
  rw [expectsVoid, expectsVoid, funext (isVoidReturning_rename hf c),
    funext (isResultReturning_rename hf c)]

theorem parameterReach_rename (count index : Nat) (p : Parameter) :
    (c.rename f).parameterReach count index p = c.parameterReach count index p := by
  rw [parameterReach, parameterReach, funext (isVoidReturning_rename hf c), rename,
    TypeTable.apparentType_rename, TypeTable.resolve_rename]
  cases c.types.resolve (c.types.apparentType p.type) <;> rfl

theorem signatureReach_rename (count : Nat) (s : Signature) :
    (c.rename f).signatureReach count s = c.signatureReach count s := by
  simp only [signatureReach, parameterReach_rename hf]

theorem voidArguments_rename (kind : CallKind) (count : Option Nat) :
    (c.rename f).voidArguments id kind count = c.voidArguments id kind count := by
  cases count with
  | none => rfl
  | some count =>
    have hsignatures : (c.rename f).types.apparentSignatures kind id =
        c.types.apparentSignatures kind id := c.types.apparentSignatures_rename f id kind
    have hoffers : ∀ position, (c.rename f).types.signatureOffers count position =
        c.types.signatureOffers count position :=
      fun position => funext (c.types.signatureOffers_rename f count position)
    simp only [voidArguments, hsignatures, hoffers, expectsVoid_rename hf,
      funext (signatureReach_rename hf c count)]

end

/-- **The classifier knows no name but the three of its shape.**  Under other names, of which
different ones stay different, a table stays well-formed, and the classifier gives the same answers
about every type. -/
theorem answers_rename {f : String → String} (hf : Function.Injective f) (c : Classifier) :
    ((c.rename f).types.WellFormed ↔ c.types.WellFormed) ∧
    ∀ id : TypeId,
      (c.rename f).types.apparentMembers id = c.types.apparentMembers id ∧
      (c.rename f).isSometimesResult id = c.isSometimesResult id ∧
      (c.rename f).isAlwaysResult id = c.isAlwaysResult id ∧
      (c.rename f).isResultArrayOrTuple id = c.isResultArrayOrTuple id ∧
      (c.rename f).isResultReturning id = c.isResultReturning id ∧
      (c.rename f).isVoidReturning id = c.isVoidReturning id ∧
      ∀ kind count, (c.rename f).voidArguments id kind count = c.voidArguments id kind count :=
  ⟨c.types.wellFormed_rename_iff f, fun id =>
    ⟨c.types.apparentMembers_rename f id, isSometimesResult_rename hf c id,
      isAlwaysResult_rename hf c id, isResultArrayOrTuple_rename hf c id,
      isResultReturning_rename hf c id, isVoidReturning_rename hf c id,
      voidArguments_rename hf c id⟩⟩

/-- A shape whose discriminant is a marker too, with a Result that has two properties of that name,
a function that returns the Result, one that returns nothing, and one that takes both. -/
def sharedName : Classifier where
  types := ⟨TypeTable.primitives.entries ++ #[
    .literal (.string "ok"),
    .object { properties := [⟨"ok", ⟨9⟩⟩, ⟨"ok", ⟨7⟩⟩] },
    .object { callSignatures := [⟨[], ⟨10⟩⟩] },
    .object { callSignatures := [⟨[], ⟨3⟩⟩] },
    .object { callSignatures := [⟨[⟨"f", ⟨11⟩, false⟩, ⟨"g", ⟨12⟩, false⟩], ⟨3⟩⟩] }]⟩
  shape := ⟨"ok", "ok", ""⟩

theorem answers_rename_sharedName :
    Function.Injective ("$" ++ ·) ∧
    (sharedName.rename ("$" ++ ·)).shape = ⟨"$ok", "$ok", "$"⟩ ∧
    (sharedName.rename ("$" ++ ·)).types.WellFormed ∧
    (sharedName.rename ("$" ++ ·)).isAlwaysResult ⟨10⟩ = true ∧
    (sharedName.rename ("$" ++ ·)).isResultReturning ⟨11⟩ = true ∧
    (sharedName.rename ("$" ++ ·)).voidArguments ⟨13⟩ .call (some 2) = [1] := by
  have hinjective : Function.Injective ("$" ++ ·) := fun _ _ => (String.append_right_inj "$").1
  obtain ⟨hwellFormed, hanswers⟩ := answers_rename hinjective sharedName
  obtain ⟨-, -, halways, -⟩ := hanswers ⟨10⟩
  obtain ⟨-, -, -, -, hreturning, -⟩ := hanswers ⟨11⟩
  obtain ⟨-, -, -, -, -, -, hvoid⟩ := hanswers ⟨13⟩
  refine ⟨hinjective, by decide, hwellFormed.2 (TypeTable.wellFormed_iff.2 ⟨rfl, rfl⟩), ?_, ?_, ?_⟩
  · exact halways.trans (by decide)
  · exact hreturning.trans (by decide)
  · exact (hvoid .call (some 2)).trans (by decide)

end Classifier

end ResultLint
