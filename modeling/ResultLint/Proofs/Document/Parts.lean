import ResultLint.Proofs.Document.RoundTrip

/-!
# Parts of documents

The objects with named fields in a document, each with the names that it reads.  The names of a node
or a type are those of the kind or form that it says.  An object is read field by field, so what it
stands for depends only on the values of these fields.  Their order is of no importance, and where a
field holds parts itself it is enough that they are read alike: `Part.Agree`.

* `Span.ofJson?_congr` and the like: **a part is read alike from records that agree.**
* `Node.ofJson?_congr`, `Ty.ofJson?_congr`: the same of nodes and types, whose other fields have to
  be sound.
-/

namespace ResultLint

/-! ## Fields that are read alike -/

namespace Record

variable {α : Type} {r r' : Record} {name : String}

/-- Lists of values that are read alike, up to their order, have no value, or one that is read
alike, or more. -/
theorem cases_of_perm {read : Json → Option α} {l l' : List Json}
    (h : (l.map read).Perm (l'.map read)) :
    (l = [] ∧ l' = []) ∨ (∃ x x', l = [x] ∧ l' = [x'] ∧ read x = read x') ∨
      ∃ x y rest x' y' rest', l = x :: y :: rest ∧ l' = x' :: y' :: rest' := by
  have hlength := h.length_eq
  rw [List.length_map, List.length_map] at hlength
  rcases l with _ | ⟨x, _ | ⟨y, rest⟩⟩ <;> rcases l' with _ | ⟨x', _ | ⟨y', rest'⟩⟩ <;>
    simp at hlength h ⊢
  exact h

theorem required_congr {read : Json → Option α}
    (h : ((r name).map read).Perm ((r' name).map read)) :
    r.required name read = r'.required name read := by
  unfold required
  rcases cases_of_perm h with ⟨h, h'⟩ | ⟨x, x', h, h', hread⟩ | ⟨_, _, _, _, _, _, h, h'⟩ <;>
    rw [h, h']
  exact hread

theorem defaulted_congr {read : Json → Option α}
    (h : ((r name).map read).Perm ((r' name).map read)) (a : α) :
    r.defaulted name read a = r'.defaulted name read a := by
  unfold defaulted
  rcases cases_of_perm h with ⟨h, h'⟩ | ⟨x, x', h, h', hread⟩ | ⟨_, _, _, _, _, _, h, h'⟩ <;>
    rw [h, h']
  exact hread

theorem optional_congr (h : (r name).Perm (r' name)) (read : Json → Option α) :
    r.optional name read = r'.optional name read := by
  unfold optional
  rcases cases_of_perm (h.map (Json.nullable read)) with
    ⟨h, h'⟩ | ⟨x, x', h, h', hread⟩ | ⟨_, _, _, _, _, _, h, h'⟩ <;> rw [h, h']
  exact hread

end Record

/-! ## Parts and their fields -/

/-- The parts of a document that are objects with named fields. -/
inductive Part
  | program
  | tree
  | node
  | span
  | type
  | literalType
  | signature
  | parameter
  | property

/-- What stands in a field: a part, or a list of parts. -/
inductive Slot
  | one (part : Part)
  | each (part : Part)

/-- The fields of a kind of node. -/
def NodeKind.fieldNames (kind : String) : List String :=
  match kind with
  | "program" => ["body"]
  | "block" => ["body"]
  | "expressionStatement" => ["expression"]
  | "if" => ["test", "consequent", "alternate"]
  | "while" => ["test", "body"]
  | "doWhile" => ["body", "test"]
  | "for" => ["init", "test", "update", "body"]
  | "return" => ["argument"]
  | "variableDeclaration" => ["declarators"]
  | "variableDeclarator" => ["id", "init"]
  | "function" => ["function", "name", "params", "body"]
  | "classDeclaration" => ["name", "heritage", "members"]
  | "interfaceDeclaration" => ["name", "heritage", "members"]
  | "classMember" => ["key", "member", "value", "isStatic"]
  | "sequence" => ["expressions"]
  | "unary" => ["operator", "argument"]
  | "binary" => ["operator", "left", "right"]
  | "logical" => ["operator", "left", "right"]
  | "conditional" => ["test", "consequent", "alternate"]
  | "assignment" => ["operator", "left", "right"]
  | "call" => ["callee", "arguments", "optional"]
  | "new" => ["callee", "arguments"]
  | "member" => ["object", "property", "optional"]
  | "chain" => ["expression"]
  | "identifier" => ["name"]
  | "literal" => ["value"]
  | "objectLiteral" => ["properties"]
  | "property" => ["key", "value", "property"]
  | "arrayLiteral" => ["elements"]
  | "spread" => ["argument"]
  | "element" => ["name", "attributes", "children"]
  | "attribute" => ["name", "value"]
  | _ => []

/-- The fields of a form of type. -/
def Ty.fieldNames (form : String) : List String :=
  match form with
  | "primitive" => ["primitive"]
  | "literal" => ["literal"]
  | "object" => ["name", "properties", "callSignatures", "constructSignatures"]
  | "union" => ["members"]
  | "array" => ["element"]
  | "tuple" => ["elements"]
  | "typeParameter" => ["name", "constraint"]
  | _ => []

namespace Part

/-- The names of the fields of an object that stands for a part.  Those of a node or a type depend
on the kind or form that it says. -/
def fieldNames (fields : List (String × Json)) : Part → List String
  | program => ["types", "tree"]
  | tree => ["nodes", "root"]
  | node =>
    "kind" :: Node.commonFields ++
      (((Json.values fields).required "kind" NodeKind.nameOfJson?).map NodeKind.fieldNames).getD []
  | span => ["start", "end", "line", "column"]
  | type =>
    "type" :: (((Json.values fields).required "type" Json.text).map Ty.fieldNames).getD []
  | literalType => ["kind", "value"]
  | signature => ["params", "returnType"]
  | parameter => ["name", "ty", "rest"]
  | property => ["name", "ty"]

/-- What stands in a field of a part, if it holds parts. -/
def slot? : Part → String → Option Slot
  | program, "types" => some (.each type)
  | program, "tree" => some (.one tree)
  | tree, "nodes" => some (.each node)
  | node, "span" => some (.one span)
  | type, "literal" => some (.one literalType)
  | type, "properties" => some (.each property)
  | type, "callSignatures" => some (.each signature)
  | type, "constructSignatures" => some (.each signature)
  | signature, "params" => some (.each parameter)
  | _, _ => none

end Part

/-! ## Reading parts -/

namespace Part

def Value : Part → Type
  | program => Program
  | tree => Tree
  | node => Node
  | span => Span
  | type => Ty
  | literalType => LiteralType
  | signature => Signature
  | parameter => Parameter
  | property => Property

def read : (part : Part) → Json → Option part.Value
  | program => Program.ofJson?
  | tree => Tree.ofJson?
  | node => Node.ofJson?
  | span => Span.ofJson?
  | type => Ty.ofJson?
  | literalType => LiteralType.ofJson?
  | signature => Signature.ofJson?
  | parameter => Parameter.ofJson?
  | property => Property.ofJson?

end Part

namespace Slot

def Value : Slot → Type
  | one part => part.Value
  | each part => List part.Value

def read : (slot : Slot) → Json → Option slot.Value
  | one part => part.read
  | each part => Json.list part.read

end Slot

namespace Part

variable {part : Part} {name : String} {l l' : List Json}

/-- The values of a field are the same up to their order, or are read alike. -/
def Alike (part : Part) (name : String) (l l' : List Json) : Prop :=
  match part.slot? name with
  | none => l.Perm l'
  | some slot => (l.map slot.read).Perm (l'.map slot.read)

theorem alike_of_perm (h : l.Perm l') : part.Alike name l l' := by
  unfold Alike
  split
  · exact h
  · exact h.map _

theorem alike_of_read {slot : Slot} (hslot : part.slot? name = some slot)
    (h : (l.map slot.read).Perm (l'.map slot.read)) : part.Alike name l l' := by
  unfold Alike
  rw [hslot]
  exact h

theorem Alike.perm (h : part.Alike name l l') (hslot : part.slot? name = none) : l.Perm l' := by
  unfold Alike at h
  rw [hslot] at h
  exact h

theorem Alike.read {slot : Slot} (h : part.Alike name l l') (hslot : part.slot? name = some slot) :
    (l.map slot.read).Perm (l'.map slot.read) := by
  unfold Alike at h
  rw [hslot] at h
  exact h

/-- The fields of these names are alike. -/
def Agree (part : Part) (names : List String) (r r' : Record) : Prop :=
  ∀ name ∈ names, part.Alike name (r name) (r' name)

variable {names : List String} {r r' : Record} {α : Type}

section

variable (h : part.Agree names r r') (name : String) (hname : name ∈ names)

include h hname

theorem Agree.required (hslot : part.slot? name = none) (read : Json → Option α) :
    r.required name read = r'.required name read :=
  Record.required_congr (((h name hname).perm hslot).map read)

theorem Agree.defaulted (hslot : part.slot? name = none) (read : Json → Option α) (a : α) :
    r.defaulted name read a = r'.defaulted name read a :=
  Record.defaulted_congr (((h name hname).perm hslot).map read) a

theorem Agree.optional (hslot : part.slot? name = none) (read : Json → Option α) :
    r.optional name read = r'.optional name read :=
  Record.optional_congr ((h name hname).perm hslot) read

theorem Agree.required_slot {slot : Slot} (hslot : part.slot? name = some slot) :
    r.required name slot.read = r'.required name slot.read :=
  Record.required_congr ((h name hname).read hslot)

theorem Agree.defaulted_slot {slot : Slot} (hslot : part.slot? name = some slot) (a : slot.Value) :
    r.defaulted name slot.read a = r'.defaulted name slot.read a :=
  Record.defaulted_congr ((h name hname).read hslot) a

end

/-- The records that two values stand for agree, if there are any. -/
def RecordsAgree (part : Part) (names : List String) (json json' : Json) : Prop :=
  Option.Rel (part.Agree names) (json.record names) (json'.record names)

theorem RecordsAgree.bind {json json' : Json} (h : part.RecordsAgree names json json')
    {f : Record → Option α} (hf : ∀ r r', part.Agree names r r' → f r = f r') :
    (json.record names >>= f) = (json'.record names >>= f) := by
  unfold RecordsAgree at h
  generalize json.record names = o at h ⊢
  generalize json'.record names = o' at h ⊢
  cases h with
  | none => rfl
  | some h => exact hf _ _ h

end Part

section

variable {json json' : Json}

theorem Span.ofJson?_congr
    (h : Part.span.RecordsAgree ["start", "end", "line", "column"] json json') :
    Span.ofJson? json = Span.ofJson? json' := by
  refine h.bind fun r r' hr => ?_
  rw [hr.required "start" (by simp) rfl, hr.required "end" (by simp) rfl,
    hr.required "line" (by simp) rfl, hr.required "column" (by simp) rfl]

theorem Parameter.ofJson?_congr
    (h : Part.parameter.RecordsAgree ["name", "ty", "rest"] json json') :
    Parameter.ofJson? json = Parameter.ofJson? json' := by
  refine h.bind fun r r' hr => ?_
  rw [hr.required "name" (by simp) rfl, hr.required "ty" (by simp) rfl,
    hr.defaulted "rest" (by simp) rfl]

theorem Property.ofJson?_congr (h : Part.property.RecordsAgree ["name", "ty"] json json') :
    Property.ofJson? json = Property.ofJson? json' := by
  refine h.bind fun r r' hr => ?_
  rw [hr.required "name" (by simp) rfl, hr.required "ty" (by simp) rfl]

theorem Signature.ofJson?_congr
    (h : Part.signature.RecordsAgree ["params", "returnType"] json json') :
    Signature.ofJson? json = Signature.ofJson? json' := by
  refine h.bind fun r r' hr => ?_
  have hparams : r.required "params" (Json.list Parameter.ofJson?) =
      r'.required "params" (Json.list Parameter.ofJson?) := hr.required_slot "params" (by simp) rfl
  rw [hparams, hr.required "returnType" (by simp) rfl]

theorem Tree.ofJson?_congr (h : Part.tree.RecordsAgree ["nodes", "root"] json json') :
    Tree.ofJson? json = Tree.ofJson? json' := by
  refine h.bind fun r r' hr => ?_
  have hnodes : r.required "nodes" (Json.list Node.ofJson?) =
      r'.required "nodes" (Json.list Node.ofJson?) := hr.required_slot "nodes" (by simp) rfl
  rw [hnodes, hr.required "root" (by simp) rfl]

theorem Program.ofJson?_congr (h : Part.program.RecordsAgree ["types", "tree"] json json') :
    Program.ofJson? json = Program.ofJson? json' := by
  refine h.bind fun r s hr => ?_
  have htypes : r.required "types" TypeTable.ofJson? = s.required "types" TypeTable.ofJson? := by
    have hread : ((r "types").map (Json.list Ty.ofJson?)).Perm
        ((s "types").map (Json.list Ty.ofJson?)) := (hr "types" (by simp)).read rfl
    have htable := hread.map (Option.map fun types => (⟨types.toArray⟩ : TypeTable))
    rw [List.map_map, List.map_map] at htable
    exact Record.required_congr htable
  have htree : r.required "tree" Tree.ofJson? = s.required "tree" Tree.ofJson? :=
    hr.required_slot "tree" (by simp) rfl
  rw [htypes, htree]

theorem ObjectType.ofJson?_congr
    (h : Part.type.RecordsAgree ["name", "properties", "callSignatures", "constructSignatures"] json
      json') : ObjectType.ofJson? json = ObjectType.ofJson? json' := by
  refine h.bind fun r r' hr => ?_
  have hproperties : r.defaulted "properties" (Json.list Property.ofJson?) [] =
      r'.defaulted "properties" (Json.list Property.ofJson?) [] :=
    hr.defaulted_slot "properties" (by simp) rfl []
  have hcall : r.defaulted "callSignatures" (Json.list Signature.ofJson?) [] =
      r'.defaulted "callSignatures" (Json.list Signature.ofJson?) [] :=
    hr.defaulted_slot "callSignatures" (by simp) rfl []
  have hconstruct : r.defaulted "constructSignatures" (Json.list Signature.ofJson?) [] =
      r'.defaulted "constructSignatures" (Json.list Signature.ofJson?) [] :=
    hr.defaulted_slot "constructSignatures" (by simp) rfl []
  rw [hr.optional "name" (by simp) rfl, hproperties, hcall, hconstruct]

theorem Ty.ofForm?_congr {form : String} (h : Part.type.RecordsAgree (fieldNames form) json json') :
    ofForm? form json = ofForm? form json' := by
  unfold ofForm?
  split
  · exact h.bind fun r r' hr => by rw [hr.required "primitive" (by decide) rfl]
  · refine h.bind fun r r' hr => ?_
    have hliteral : r.required "literal" LiteralType.ofJson? =
        r'.required "literal" LiteralType.ofJson? := hr.required_slot "literal" (by decide) rfl
    rw [hliteral]
  · rw [ObjectType.ofJson?_congr h]
  · exact h.bind fun r r' hr => by rw [hr.required "members" (by decide) rfl]
  · exact h.bind fun r r' hr => by rw [hr.required "element" (by decide) rfl]
  · exact h.bind fun r r' hr => by rw [hr.required "elements" (by decide) rfl]
  · refine h.bind fun r r' hr => ?_
    rw [hr.required "name" (by decide) rfl, hr.optional "constraint" (by decide) rfl]
  · rfl

end

theorem NodeKind.ofFields?_congr {kind : String} {r r' : Record}
    (h : ∀ name ∈ fieldNames kind, (r name).Perm (r' name)) :
    ofFields? kind r = ofFields? kind r' := by
  have hrequired : ∀ name ∈ fieldNames kind, ∀ {α : Type} (read : Json → Option α),
      r.required name read = r'.required name read :=
    fun name hname _ read => Record.required_congr ((h name hname).map read)
  have hdefaulted : ∀ name ∈ fieldNames kind, ∀ {α : Type} (read : Json → Option α) (a : α),
      r.defaulted name read a = r'.defaulted name read a :=
    fun name hname _ read => Record.defaulted_congr ((h name hname).map read)
  have hoptional : ∀ name ∈ fieldNames kind, ∀ {α : Type} (read : Json → Option α),
      r.optional name read = r'.optional name read :=
    fun name hname _ read => Record.optional_congr (h name hname) read
  unfold ofFields?
  split <;>
    simp only [Record.node, Record.node?, Record.nodes, Record.text, Record.flag, fieldNames,
      List.mem_cons, List.not_mem_nil, or_false, true_or, or_true, hrequired, hdefaulted, hoptional]

theorem Part.slot?_node {name : String} (h : name ≠ "span") : node.slot? name = none := by
  unfold slot?
  split <;> simp_all

theorem NodeKind.span_not_mem_fieldNames (kind : String) : "span" ∉ fieldNames kind := by
  unfold fieldNames
  split <;> decide

section

variable {fields fields' : List (String × Json)}

theorem Node.ofRecord?_congr
    (h : Part.node.Agree (Part.node.fieldNames fields) (Json.values fields)
      (Json.values fields')) :
    ofRecord? (Json.values fields) = ofRecord? (Json.values fields') := by
  have hcommon : ∀ name ∈ "kind" :: commonFields, name ∈ Part.node.fieldNames fields :=
    fun name hname => List.mem_append_left _ hname
  have hkind := h.required "kind" (hcommon "kind" (by decide)) rfl NodeKind.nameOfJson?
  have hspan : (Json.values fields).defaulted "span" Span.ofJson? {} =
      (Json.values fields').defaulted "span" Span.ofJson? {} :=
    h.defaulted_slot "span" (hcommon "span" (by decide)) rfl ({} : Span)
  unfold ofRecord?
  rw [hspan, h.optional "ty" (hcommon "ty" (by decide)) rfl,
    h.optional "contextualType" (hcommon "contextualType" (by decide)) rfl, ← hkind]
  cases hname : (Json.values fields).required "kind" NodeKind.nameOfJson? with
  | none => rfl
  | some kind =>
    -- only the fields of this kind are known to agree
    have hfields : NodeKind.ofFields? kind (Json.values fields) =
        NodeKind.ofFields? kind (Json.values fields') := by
      refine NodeKind.ofFields?_congr fun name hmem => ?_
      have hown : name ∈ Part.node.fieldNames fields := by
        rw [Part.fieldNames, hname]
        exact List.mem_append_right _ hmem
      refine (h name hown).perm (Part.slot?_node ?_)
      rintro rfl
      exact NodeKind.span_not_mem_fieldNames kind hmem
    exact congrArg (· >>= _) hfields

theorem Node.ofJson?_congr
    (h : Part.node.Agree (Part.node.fieldNames fields) (Json.values fields) (Json.values fields'))
    (hsound : Json.soundFields (fields.filter (·.1 ∉ commonFields)) =
      Json.soundFields (fields'.filter (·.1 ∉ commonFields))) :
    Node.ofJson? (.object fields) = Node.ofJson? (.object fields') := by
  rw [ofJson?, ofJson?, ofRecord?_congr h, hsound]

theorem LiteralType.ofJson?_congr
    (h : Part.literalType.Agree ["kind", "value"] (Json.values fields) (Json.values fields')) :
    LiteralType.ofJson? (.object fields) = LiteralType.ofJson? (.object fields') := by
  rw [ofJson?, ofJson?, h.required "kind" (by simp) rfl, h.required "value" (by simp) rfl]

theorem Json.values_filter_ne {name other : String} (h : name ≠ other) :
    Json.values (fields.filter (·.1 ≠ other)) name = Json.values fields name := by
  rw [values, values, List.filter_filter]
  congr 1
  refine List.filter_congr fun field _ => ?_
  by_cases hname : field.1 = name
  · simp [hname, h]
  · simp [hname]

theorem Ty.type_not_mem_fieldNames (form : String) : "type" ∉ fieldNames form := by
  unfold fieldNames
  split <;> decide

theorem Ty.ofJson?_congr
    (h : Part.type.Agree (Part.type.fieldNames fields) (Json.values fields) (Json.values fields'))
    (hsound : (Json.object fields).sound = (Json.object fields').sound) :
    Ty.ofJson? (.object fields) = Ty.ofJson? (.object fields') := by
  have hform := h.required "type" List.mem_cons_self rfl Json.text
  rw [ofJson?, ofJson?, hsound, ← hform]
  cases hname : (Json.values fields).required "type" Json.text with
  | none => rfl
  | some form =>
    have hbody : ofForm? form (.object (fields.filter (·.1 ≠ "type"))) =
        ofForm? form (.object (fields'.filter (·.1 ≠ "type"))) := by
      refine ofForm?_congr (.some fun name hmem => ?_)
      have hne : name ≠ "type" := by
        rintro rfl
        exact type_not_mem_fieldNames form hmem
      rw [Json.values_filter_ne hne, Json.values_filter_ne hne]
      refine h name (List.mem_cons_of_mem _ ?_)
      rw [hname]
      exact hmem
    exact congrArg (guard _ >>= fun _ => ·) hbody

theorem Ty.ofJson?_congr_array {form : String} {items items' : List Json}
    (hsound : (Json.array (.string form :: items)).sound =
      (Json.array (.string form :: items')).sound)
    (h : Part.type.RecordsAgree (fieldNames form) (.array items) (.array items')) :
    Ty.ofJson? (.array (.string form :: items)) = Ty.ofJson? (.array (.string form :: items')) := by
  rw [ofJson?, ofJson?, hsound, ofForm?_congr h]

end

end ResultLint
