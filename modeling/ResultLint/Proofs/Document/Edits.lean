import ResultLint.Proofs.Document.Parts

/-!
# Edited documents

In an object that stands for a part of a document, the order of the fields does not matter and
fields of other names are passed over.  `Edit` changes one such object somewhere in a document: it
permutes the fields or adds one, a string under a name that is not a name of the object's own.  A
name may be added that another kind of node or form of type reads.

* `Part.SameFields.read_object`: an object is read as before if its fields are alike.
* `Edit.read_eq`: a part is read as before after an edit, by induction along the way to the object.
* `Edit.legible`: what can be written can be written after an edit.
* `Program.load_edit`: **a document is loaded as before after an edit**, with the same program or
  the same error.
-/

namespace ResultLint

/-- What stands in an array for a part after the given items. -/
def Part.slotAt? (before : List Json) : Part → Option Slot
  | node => none
  | literalType => none
  | type =>
    match before with
    | .string form :: before => (Ty.fieldNames form)[before.length]?.bind type.slot?
    | _ => none
  | part => (part.fieldNames [])[before.length]?.bind part.slot?

/-- One object of a part has its fields in another order, or has one more field, a string under a
name that is not one of its own. -/
inductive Edit : Slot → Json → Json → Prop
  | permute (part : Part) {fields fields' : List (String × Json)} (h : fields.Perm fields') :
      Edit (.one part) (.object fields) (.object fields')
  | add (part : Part) (before after : List (String × Json)) {name : String} (value : String)
      (h : name ∉ part.fieldNames (before ++ after)) :
      Edit (.one part) (.object (before ++ after))
        (.object (before ++ (name, .string value) :: after))
  | field {part : Part} {slot : Slot} {json json' : Json} (before after : List (String × Json))
      {name : String} (hslot : part.slot? name = some slot) (h : Edit slot json json') :
      Edit (.one part) (.object (before ++ (name, json) :: after))
        (.object (before ++ (name, json') :: after))
  | item {part : Part} {slot : Slot} {json json' : Json} (before after : List Json)
      (hslot : part.slotAt? before = some slot) (h : Edit slot json json') :
      Edit (.one part) (.array (before ++ json :: after)) (.array (before ++ json' :: after))
  | listed {part : Part} {json json' : Json} (before after : List Json)
      (h : Edit (.one part) json json') :
      Edit (.each part) (.array (before ++ json :: after)) (.array (before ++ json' :: after))

/-! ## Edited fields -/

/-- The fields of two objects are alike for the part, and sound alike, whichever are looked at. -/
structure Part.SameFields (part : Part) (fields fields' : List (String × Json)) : Prop where
  agree : part.Agree (part.fieldNames fields) (Json.values fields) (Json.values fields')
  sound : ∀ keep : String → Bool, Json.soundFields (fields.filter (keep ·.1)) =
    Json.soundFields (fields'.filter (keep ·.1))

namespace Json

theorem values_cons_self (name : String) (json : Json) (fields : List (String × Json)) :
    values ((name, json) :: fields) name = json :: values fields name := by
  simp [values]

theorem values_cons_of_ne {name other : String} (h : other ≠ name) (json : Json)
    (fields : List (String × Json)) :
    values ((other, json) :: fields) name = values fields name := by
  simp [values, h]

theorem soundFields_eq (fields : List (String × Json)) :
    soundFields fields = fields.all (·.2.sound) := by
  induction fields with
  | nil => rfl
  | cons field fields ih => rw [soundFields, List.all_cons, ih]

theorem soundItems_eq (items : List Json) : soundItems items = items.all (·.sound) := by
  induction items with
  | nil => rfl
  | cons item items ih => rw [soundItems, List.all_cons, ih]

theorem sound_item {json json' : Json} (h : json.sound = json'.sound) (before after : List Json) :
    (Json.array (before ++ json :: after)).sound =
      (Json.array (before ++ json' :: after)).sound := by
  simp only [sound, soundItems_eq, List.all_append, List.all_cons, h]

theorem list_item {α : Type} {read : Json → Option α} {json json' : Json}
    (h : read json = read json') (before after : List Json) :
    list read (.array (before ++ json :: after)) =
      list read (.array (before ++ json' :: after)) := by
  ext as
  rw [list, list, mapM_eq_some_iff, mapM_eq_some_iff, List.map_append, List.map_append,
    List.map_cons, List.map_cons, h]

end Json

namespace Part

variable {part : Part}

theorem agree_permute (names : List String) {fields fields' : List (String × Json)}
    (h : fields.Perm fields') : part.Agree names (Json.values fields) (Json.values fields') :=
  fun _ _ => alike_of_perm ((h.filter _).map _)

theorem agree_add {names : List String} {name : String} (h : name ∉ names) (json : Json)
    (before after : List (String × Json)) :
    part.Agree names (Json.values (before ++ after))
      (Json.values (before ++ (name, json) :: after)) := by
  intro other hother
  have hne : name ≠ other := by
    rintro rfl
    exact h hother
  rw [Json.values_append, Json.values_append, Json.values_cons_of_ne hne]
  exact alike_of_perm (.refl _)

theorem agree_field (names : List String) {name : String} {slot : Slot}
    (hslot : part.slot? name = some slot) {json json' : Json} (h : slot.read json = slot.read json')
    (before after : List (String × Json)) :
    part.Agree names (Json.values (before ++ (name, json) :: after))
      (Json.values (before ++ (name, json') :: after)) := by
  intro other _
  rw [Json.values_append, Json.values_append]
  by_cases hother : name = other
  · subst hother
    refine alike_of_read hslot ?_
    rw [Json.values_cons_self, Json.values_cons_self, List.map_append, List.map_append,
      List.map_cons, List.map_cons, h]
  · rw [Json.values_cons_of_ne hother, Json.values_cons_of_ne hother]
    exact alike_of_perm (.refl _)

theorem sameFields_permute {fields fields' : List (String × Json)} (h : fields.Perm fields') :
    part.SameFields fields fields' := by
  refine ⟨agree_permute _ h, fun keep => ?_⟩
  rw [Json.soundFields_eq, Json.soundFields_eq]
  exact (h.filter _).all_eq

theorem sameFields_add (before after : List (String × Json)) {name : String} (value : String)
    (h : name ∉ part.fieldNames (before ++ after)) :
    part.SameFields (before ++ after) (before ++ (name, .string value) :: after) := by
  refine ⟨agree_add h _ before after, fun keep => ?_⟩
  have hvalue : (Json.string value).sound = true := rfl
  simp only [Json.soundFields_eq, List.filter_append, List.all_append, List.filter_cons]
  split
  · rw [List.all_cons, hvalue, Bool.true_and]
  · rfl

theorem sameFields_field {name : String} {slot : Slot} (hslot : part.slot? name = some slot)
    {json json' : Json} (h : slot.read json = slot.read json') (hsound : json.sound = json'.sound)
    (before after : List (String × Json)) :
    part.SameFields (before ++ (name, json) :: after) (before ++ (name, json') :: after) := by
  refine ⟨agree_field _ hslot h before after, fun keep => ?_⟩
  simp only [Json.soundFields_eq, List.filter_append, List.all_append, List.filter_cons]
  split
  · rw [List.all_cons, List.all_cons, hsound]
  · rfl

theorem SameFields.sound_object {fields fields' : List (String × Json)}
    (h : part.SameFields fields fields') :
    (Json.object fields).sound = (Json.object fields').sound := by
  have hkeep : ∀ l : List (String × Json), l.filter (fun _ => true) = l :=
    fun l => List.filter_eq_self.2 fun _ _ => rfl
  have hall := h.sound fun _ => true
  rw [hkeep, hkeep] at hall
  exact hall

/-- **An object is read as before if its fields are alike.** -/
theorem SameFields.read_object {fields fields' : List (String × Json)}
    (h : part.SameFields fields fields') :
    part.read (.object fields) = part.read (.object fields') := by
  cases part with
  | program => exact Program.ofJson?_congr (.some h.agree)
  | tree => exact Tree.ofJson?_congr (.some h.agree)
  | node => exact Node.ofJson?_congr h.agree (h.sound (· ∉ Node.commonFields))
  | span => exact Span.ofJson?_congr (.some h.agree)
  | type => exact Ty.ofJson?_congr h.agree h.sound_object
  | literalType => exact LiteralType.ofJson?_congr h.agree
  | signature => exact Signature.ofJson?_congr (.some h.agree)
  | parameter => exact Parameter.ofJson?_congr (.some h.agree)
  | property => exact Property.ofJson?_congr (.some h.agree)

/-- One item of an array that stands for a record is read alike. -/
theorem recordsAgree_item {names : List String} {slot : Slot} {before after : List Json}
    (hslot : names[before.length]?.bind part.slot? = some slot) {json json' : Json}
    (h : slot.read json = slot.read json') :
    part.RecordsAgree names (.array (before ++ json :: after))
      (.array (before ++ json' :: after)) := by
  obtain ⟨name, hname, hslot⟩ := Option.bind_eq_some_iff.1 hslot
  obtain ⟨hlt, hget⟩ := List.getElem?_eq_some_iff.1 hname
  have hnames : names = names.take before.length ++ name :: names.drop (before.length + 1) := by
    rw [← hget, List.getElem_cons_drop, List.take_append_drop]
  have hzip : ∀ json, names.zip (before ++ json :: after) =
      (names.take before.length).zip before ++
        (name, json) :: (names.drop (before.length + 1)).zip after := by
    intro json
    have hlength : (names.take before.length).length = before.length := by
      rw [List.length_take]
      omega
    refine (congrArg (·.zip (before ++ json :: after)) hnames).trans ?_
    exact List.zip_append hlength
  have hlength : (before ++ json :: after).length = (before ++ json' :: after).length := by simp
  rw [RecordsAgree, Json.record, Json.record, hlength]
  split
  · refine .some ?_
    rw [hzip, hzip]
    exact agree_field names hslot h _ _
  · exact .none

theorem read_item {slot : Slot} {before after : List Json} (hslot : part.slotAt? before = some slot)
    {json json' : Json} (h : slot.read json = slot.read json') (hsound : json.sound = json'.sound) :
    part.read (.array (before ++ json :: after)) =
      part.read (.array (before ++ json' :: after)) := by
  cases part with
  | program => exact Program.ofJson?_congr (recordsAgree_item hslot h)
  | tree => exact Tree.ofJson?_congr (recordsAgree_item hslot h)
  | node => cases hslot
  | span => exact Span.ofJson?_congr (recordsAgree_item hslot h)
  | type =>
    cases before with
    | nil => cases hslot
    | cons head before =>
      cases head with
      | string form =>
        exact Ty.ofJson?_congr_array (Json.sound_item hsound (.string form :: before) after)
          (recordsAgree_item hslot h)
      | _ => cases hslot
  | literalType => cases hslot
  | signature => exact Signature.ofJson?_congr (recordsAgree_item hslot h)
  | parameter => exact Parameter.ofJson?_congr (recordsAgree_item hslot h)
  | property => exact Property.ofJson?_congr (recordsAgree_item hslot h)

end Part

theorem Edit.read_eq {slot : Slot} {json json' : Json} (h : Edit slot json json') :
    slot.read json = slot.read json' ∧ json.sound = json'.sound := by
  induction h with
  | permute part hperm =>
    have hsame : part.SameFields _ _ := Part.sameFields_permute hperm
    exact ⟨hsame.read_object, hsame.sound_object⟩
  | add part before after value hname =>
    have hsame := Part.sameFields_add before after value hname
    exact ⟨hsame.read_object, hsame.sound_object⟩
  | field before after hslot _ ih =>
    have hsame := Part.sameFields_field hslot ih.1 ih.2 before after
    exact ⟨hsame.read_object, hsame.sound_object⟩
  | item before after hslot _ ih =>
    exact ⟨Part.read_item hslot ih.1 ih.2, Json.sound_item ih.2 before after⟩
  | listed before after _ ih =>
    exact ⟨Json.list_item ih.1 before after, Json.sound_item ih.2 before after⟩

/-- What can be written can be written after an edit. -/
theorem Edit.legible {slot : Slot} {json json' : Json} (h : Edit slot json json') {room : Nat}
    (hjson : json.Legible room) : json'.Legible room := by
  induction h generalizing room with
  | permute part hperm =>
    cases hjson with
    | object hfields => exact .object fun field hfield => hfields field (hperm.mem_iff.2 hfield)
  | add part before after value _ =>
    cases hjson with
    | object hfields =>
      refine .object fun field hfield => ?_
      rcases List.mem_append.1 hfield with hfield | hfield
      · exact hfields field (List.mem_append_left _ hfield)
      · rcases List.mem_cons.1 hfield with rfl | hfield
        · exact .string _ value
        · exact hfields field (List.mem_append_right _ hfield)
  | field before after _ _ ih =>
    cases hjson with
    | object hfields =>
      simp only [List.forall_mem_append, List.forall_mem_cons] at hfields
      refine .object ?_
      simp only [List.forall_mem_append, List.forall_mem_cons]
      exact ⟨hfields.1, ih hfields.2.1, hfields.2.2⟩
  | item before after _ _ ih | listed before after _ ih =>
    cases hjson with
    | array hitems =>
      simp only [List.forall_mem_append, List.forall_mem_cons] at hitems
      refine .array ?_
      simp only [List.forall_mem_append, List.forall_mem_cons]
      exact ⟨hitems.1, ih hitems.2.1, hitems.2.2⟩

namespace Program

/-- **A document is loaded as before after an edit of one of its objects**: the program is the same,
or the error is, with what it names. -/
theorem load_edit {text text' : String} {json json' : Json} (htext : Json.parse? text = some json)
    (htext' : Json.parse? text' = some json') (h : Edit (.one .program) json json') :
    load text' = load text := by
  have hread : ofJson? json = ofJson? json' := h.read_eq.1
  rw [load, load, parse?, parse?, htext, htext', Option.bind_some, Option.bind_some, hread]

/-- `saved;` -/
def notedProgram : Program :=
  ⟨.primitives, ⟨#[
    { kind := .identifier "saved", type := some .boolean },
    { kind := .expressionStatement ⟨0⟩ },
    { kind := .program [⟨1⟩] }], ⟨2⟩⟩⟩

/-- The document of the program, with a test for its statement, as a conditional has one. -/
def notedDocument : Json :=
  .object [("types", notedProgram.types.toJson), ("tree", .object [
    ("nodes", .array [
      Node.toJson { kind := .identifier "saved", type := some .boolean },
      .object [("kind", .string "expressionStatement"), ("test", .string "later"),
        ("expression", .integer 0), ("span", Span.toJson {})],
      Node.toJson { kind := .program [⟨1⟩] }]),
    ("root", .integer 2)])]

theorem load_edit_noted :
    Edit (.one .program) notedProgram.toJson notedDocument ∧
      load notedDocument.render = .ok notedProgram := by
  have hedit : Edit (.one .program) notedProgram.toJson notedDocument :=
    .field [_] [] rfl (.field [] [_] rfl
      (.listed [_] [_] (.add .node [("kind", _)] [_, _] "later" (by decide))))
  have hfits : notedProgram.Fits := by decide +kernel
  have hnumber : ∀ x, notedProgram.tree.HasNumber x → x.ReadsBack := by
    rintro x ⟨n, hn, hx⟩
    have hall : ∀ n ∈ notedProgram.tree.nodes, ∀ v, n.kind ≠ .literal v := by simp [notedProgram]
    exact absurd hx (hall n hn _)
  have hlegible := (stores 120 hfits hnumber).legible
  refine ⟨hedit, ?_⟩
  rw [load_edit (Json.parse?_render hlegible) (Json.parse?_render (hedit.legible hlegible)) hedit]
  exact load_render rfl hfits hnumber

end Program

end ResultLint
